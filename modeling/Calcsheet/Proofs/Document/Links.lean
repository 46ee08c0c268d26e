import Calcsheet.Proofs.Except
import Calcsheet.Worksheet
import Mathlib.Data.List.Chain
import Mathlib.Data.List.Nodup

/-!
# Parents and children

A document tells twice who belongs to whom: every node has the number of its parent, and every
parent the numbers of its children. `Linked` says that the two agree, that numbers grow downwards
and from child to child, and that the node 0 alone has no parent. Whatever is called on a builder,
in whatever order, keeps this (`Builder.coherent_run`), and the open nodes are then the way from the
root to the innermost of them. So a finished document is a tree: from the root there is exactly one
way to each node (`Document.isTree`).
-/

namespace Calcsheet

/-! ## The two tables -/

/-- The parents of the nodes, in the order of their numbers. -/
def parentTable (nodes : Array Node) : Array (Option NodeId) :=
  nodes.map Node.parent?

/-- The numbers of the children of a node; what is no node has none. -/
def childrenOf (nodes : Array Node) (id : NodeId) : List NodeId :=
  (nodes[id]?.map fun node => node.children.toList).getD []

/-- The parents and the children of the nodes agree, and they make a tree with the root 0. -/
structure Linked (nodes : Array Node) : Prop where
  size_eq : (parentTable nodes).size = nodes.size
  parent_iff : ∀ c p : NodeId, (parentTable nodes)[c]? = some (some p) ↔ c ∈ childrenOf nodes p
  parent_lt : ∀ c p : NodeId, (parentTable nodes)[c]? = some (some p) → p < c
  increasing : ∀ p : NodeId, (childrenOf nodes p).Pairwise (· < ·)
  root_iff : ∀ id : NodeId, (parentTable nodes)[id]? = some none ↔ id = 0 ∧ 0 < nodes.size

section Tables

variable {nodes : Array Node} {p : NodeId}

theorem size_parentTable (nodes : Array Node) : (parentTable nodes).size = nodes.size :=
  Array.size_map

theorem parentTable_push (nodes : Array Node) (node : Node) :
    (parentTable (nodes.push node)) = (parentTable nodes).push node.parent? :=
  Array.map_push

theorem parentTable_modify {f : Node → Node} (h : ∀ node, (f node).parent? = node.parent?)
    (id : NodeId) : parentTable (nodes.modify id f) = parentTable nodes := by
  apply Array.ext_getElem?
  intro i
  simp only [parentTable, Array.getElem?_map, Array.getElem?_modify]
  split
  · simp [Option.map_map, Function.comp_def, h]
  · rfl

theorem parentTable_modify_text (nodes : Array Node) (id : NodeId) (text : Node → String) :
    parentTable (nodes.modify id fun node => { node with text := text node }) =
      parentTable nodes := by
  rw [parentTable_modify]
  exact fun _ => rfl

theorem childrenOf_modify (f : Node → Node) (id q : NodeId) :
    childrenOf (nodes.modify id f) q =
      if q = id then (nodes[q]?.map fun node => (f node).children.toList).getD []
      else childrenOf nodes q := by
  unfold childrenOf
  rw [Array.getElem?_modify]
  by_cases h : id = q
  · simp [h, Option.map_map, Function.comp_def]
  · rw [if_neg h, if_neg (Ne.symm h)]

theorem childrenOf_push (node : Node) (q : NodeId) :
    childrenOf (nodes.push node) q =
      if q = nodes.size then node.children.toList else childrenOf nodes q := by
  unfold childrenOf
  rw [Array.getElem?_push]
  split <;> rfl

theorem childrenOf_of_le (h : nodes.size ≤ p) : childrenOf nodes p = [] := by
  unfold childrenOf
  rw [Array.getElem?_eq_none h]
  rfl

theorem Linked.lt_of_mem (linked : Linked nodes) {c : NodeId} (h : c ∈ childrenOf nodes p) :
    c < nodes.size := by
  have table := (linked.parent_iff c p).2 h
  rw [← size_parentTable nodes]
  exact (Array.getElem?_eq_some_iff.1 table).1

/-- No number stands twice in the lists of children. -/
theorem Linked.nodup (linked : Linked nodes) :
    ((List.range nodes.size).flatMap (childrenOf nodes)).Nodup := by
  refine List.nodup_flatMap.2 ⟨fun p _ => (linked.increasing p).imp Nat.ne_of_lt, ?_⟩
  refine List.nodup_range.imp ?_
  intro p q different c hp hq
  have first := (linked.parent_iff c p).2 hp
  have second := (linked.parent_iff c q).2 hq
  rw [first] at second
  exact different (Option.some.inj (Option.some.inj second))

/-! ## More nodes -/

/-- One more node, as the last child of the node `p`. -/
def attach (nodes : Array Node) (p : NodeId) (node : Node) : Array Node :=
  (nodes.modify p fun parent => { parent with children := parent.children.push nodes.size }).push
    node

theorem parentTable_attach {node : Node} (parent : node.parent? = some p) :
    parentTable (attach nodes p node) = (parentTable nodes).push (some p) := by
  rw [attach, parentTable_push, parentTable_modify, parent]
  exact fun _ => rfl

theorem childrenOf_attach {node : Node} (children : node.children = #[]) (hp : p < nodes.size)
    (q : NodeId) : childrenOf (attach nodes p node) q =
      if q = p then childrenOf nodes q ++ [nodes.size] else childrenOf nodes q := by
  rw [attach, childrenOf_push, Array.size_modify, childrenOf_modify, children]
  by_cases new : q = nodes.size
  · have other : q ≠ p := fun h => Nat.ne_of_lt hp (h.symm.trans new)
    rw [if_pos new, if_neg other, childrenOf_of_le (Nat.le_of_eq new.symm)]
  · rw [if_neg new]
    split
    · next same =>
      rw [same, childrenOf, Array.getElem?_eq_getElem hp]
      simp
    · rfl

theorem linked_empty : Linked #[] := by
  refine ⟨size_parentTable _, ?_, ?_, ?_, ?_⟩ <;> simp [parentTable, childrenOf]

theorem linked_root {node : Node} (parent : node.parent? = none) (children : node.children = #[]) :
    Linked #[node] := by
  have table (c : NodeId) : (parentTable #[node])[c]? = if c = 0 then some none else none := by
    cases c <;> simp [parentTable, parent]
  have none (q : NodeId) : childrenOf #[node] q = [] := by
    cases q <;> simp [childrenOf, children]
  refine ⟨size_parentTable _, fun c q => ?_, fun c q => ?_, fun q => ?_, fun id => ?_⟩
  · rw [table, none]
    split <;> simp
  · rw [table]
    split <;> simp
  · rw [none]
    exact .nil
  · rw [table]
    split <;> simp_all

/-- A tree stays a tree when one more node comes in as the last child of a node that is there. -/
theorem Linked.attach {node : Node} (linked : Linked nodes) (hp : p < nodes.size)
    (parent : node.parent? = some p) (children : node.children = #[]) :
    Linked (attach nodes p node) := by
  have size : (Calcsheet.attach nodes p node).size = nodes.size + 1 := by
    simp [Calcsheet.attach]
  have entry (c : NodeId) : (parentTable (Calcsheet.attach nodes p node))[c]? =
      if c = nodes.size then some (some p) else (parentTable nodes)[c]? := by
    rw [parentTable_attach parent, Array.getElem?_push, size_parentTable]
  have lists := childrenOf_attach children hp
  have fresh (q : NodeId) : nodes.size ∉ childrenOf nodes q :=
    fun h => Nat.lt_irrefl _ (linked.lt_of_mem h)
  refine ⟨size_parentTable _, fun c q => ?_, fun c q => ?_, fun q => ?_, fun id => ?_⟩
  · rw [entry, lists]
    by_cases new : c = nodes.size
    · subst new
      by_cases hq : q = p
      · simp [hq]
      · simp [hq, fresh q, Ne.symm hq]
    · rw [if_neg new, linked.parent_iff]
      split <;> simp [new]
  · rw [entry]
    split
    · next new =>
      intro h
      obtain rfl := Option.some.inj (Option.some.inj h)
      exact new ▸ hp
    · exact linked.parent_lt c q
  · rw [lists]
    split
    · refine List.pairwise_append.2 ⟨linked.increasing q, List.pairwise_singleton .., ?_⟩
      intro c hc d hd
      obtain rfl := List.mem_singleton.1 hd
      exact linked.lt_of_mem hc
    · exact linked.increasing q
  · have pos : 0 < nodes.size := Nat.zero_lt_of_lt hp
    rw [entry, size]
    by_cases new : id = nodes.size
    · simp [new, Nat.ne_of_gt pos]
    · rw [if_neg new, linked.root_iff]
      simp [pos]

/-- Texts have nothing to do with it. -/
theorem Linked.modify_text (linked : Linked nodes) (id : NodeId) (text : Node → String) :
    Linked (nodes.modify id fun node => { node with text := text node }) := by
  have lists (q : NodeId) : childrenOf (nodes.modify id fun node =>
      { node with text := text node }) q = childrenOf nodes q := by
    rw [childrenOf_modify]
    split <;> rfl
  have table := parentTable_modify_text nodes id text
  refine ⟨size_parentTable _, ?_, ?_, ?_, ?_⟩
  · simpa only [table, lists] using linked.parent_iff
  · simpa only [table] using linked.parent_lt
  · simpa only [lists] using linked.increasing
  · simpa only [table, Array.size_modify] using linked.root_iff

end Tables

/-! ## Builders -/

namespace Builder

/-- What can be called on a builder. -/
inductive Call where
  | openElement (name : QName) (attributes : Attributes)
  | leaf (name : QName) (attributes : Attributes)
  | addText (text : String)
  | closeElement
  deriving DecidableEq, Repr

/-- The builder after a call. A call that fails leaves it as it was. -/
def call (b : Builder) : Call → Builder
  | .openElement name attributes =>
    match b.openElement name attributes with
    | .ok (_, b') => b'
    | .error _ => b
  | .leaf name attributes =>
    match b.leaf name attributes with
    | .ok (_, b') => b'
    | .error _ => b
  | .addText text => b.addText text
  | .closeElement => b.closeElement.2

/-- The builder after calls in order, from an empty one. -/
def run (calls : List Call) : Builder :=
  calls.foldl call empty

/-- The nodes make a tree, and the open ones are the way from the root to the innermost of them. -/
structure Coherent (b : Builder) : Prop extends Linked b.nodes where
  openLinked : b.opened.IsChain fun c p => (parentTable b.nodes)[c]? = some (some p)
  openRoot : ∀ id ∈ b.opened.getLast?, id = 0
  open_lt : ∀ id ∈ b.opened, id < b.nodes.size

variable {b b' : Builder} {id : NodeId} {name : QName} {attributes : Attributes}

theorem coherent_empty : empty.Coherent :=
  ⟨linked_empty, .nil, by simp [empty], by simp [empty]⟩

/-- An element is refused exactly if nothing is open and the root is there already. -/
theorem exists_openElement_error_iff :
    (∃ error, b.openElement name attributes = .error error) ↔ b.opened = [] ∧ 0 < b.nodes.size := by
  unfold openElement
  cases b.opened with
  | cons parent outer => simp
  | nil => by_cases h : b.nodes.size = 0 <;> simp [Array.isEmpty, h, Nat.pos_iff_ne_zero]

theorem leaf_eq_error_iff {error : DocumentError} :
    b.leaf name attributes = .error error ↔ b.openElement name attributes = .error error := by
  unfold leaf
  cases b.openElement name attributes <;> simp [bind, Except.bind]

theorem Coherent.openElement (h : b.Coherent) (ok : b.openElement name attributes = .ok (id, b')) :
    b'.Coherent := by
  unfold Builder.openElement at ok
  split at ok
  · next parent outer opened =>
    obtain ⟨-, rfl⟩ := Prod.mk.inj (Except.ok.inj ok)
    have hparent : parent < b.nodes.size := h.open_lt parent (by simp [opened])
    have nodes : Linked (attach b.nodes parent { name, attributes, parent? := some parent }) :=
      h.toLinked.attach hparent rfl rfl
    have table (c : NodeId) : (parentTable (attach b.nodes parent
        { name, attributes, parent? := some parent }))[c]? =
          if c = b.nodes.size then some (some parent) else (parentTable b.nodes)[c]? := by
      rw [parentTable_attach rfl, Array.getElem?_push, size_parentTable]
    refine ⟨nodes, ?_, ?_, ?_⟩
    · change List.IsChain (fun c p => (parentTable (attach b.nodes parent _))[c]? = some (some p)) _
      simp only [table]
      have kept := h.openLinked.imp_of_mem_imp (S := fun c p =>
          (if c = b.nodes.size then some (some parent) else (parentTable b.nodes)[c]?) =
            some (some p)) fun c p hc _ linked => by
        rw [if_neg (Nat.ne_of_lt (h.open_lt c hc)), linked]
      rw [opened] at kept ⊢
      exact List.isChain_cons_cons.2 ⟨if_pos rfl, kept⟩
    · have last := h.openRoot
      rw [opened] at last ⊢
      simpa [List.getLast?_cons] using last
    · intro c hc
      simp only [Array.size_push, Array.size_modify]
      rcases List.mem_cons.1 hc with rfl | hc
      · exact Nat.lt_succ_self _
      · exact Nat.lt_succ_of_lt (h.open_lt c hc)
  · next opened =>
    split at ok
    · next isEmpty =>
      obtain ⟨-, rfl⟩ := Prod.mk.inj (Except.ok.inj ok)
      have none : b.nodes = #[] := by simpa using isEmpty
      simp only [none]
      exact ⟨linked_root rfl rfl, .singleton _, by simp, by simp⟩
    · cases ok

/-- A text may change and open elements may be closed, from the innermost outwards. -/
theorem Coherent.modify_text {opened : List NodeId} (h : b.Coherent) (id : NodeId)
    (text : Node → String) (tail : opened <:+ b.opened) :
    Coherent { nodes := b.nodes.modify id fun node => { node with text := text node }, opened } := by
  refine ⟨h.toLinked.modify_text id text, ?_, ?_, ?_⟩
  · simp only [parentTable_modify_text]
    exact h.openLinked.suffix tail
  · obtain ⟨inner, hinner⟩ := tail
    intro last hlast
    have : last ∈ b.opened.getLast? := by
      rw [← hinner, List.getLast?_append, hlast]
      rfl
    exact h.openRoot last this
  · intro c hc
    rw [Array.size_modify]
    exact h.open_lt c (tail.subset hc)

theorem Coherent.addText (h : b.Coherent) (text : String) : (b.addText text).Coherent := by
  unfold Builder.addText
  split
  · exact h.modify_text _ _ (List.suffix_refl _)
  · exact h

theorem Coherent.closeElement (h : b.Coherent) : b.closeElement.2.Coherent := by
  unfold Builder.closeElement
  split
  · next opened => exact h.modify_text _ _ (opened ▸ List.suffix_cons _ _)
  · exact h

theorem Coherent.leaf (h : b.Coherent) (ok : b.leaf name attributes = .ok (id, b')) :
    b'.Coherent := by
  obtain ⟨⟨id', opened⟩, hopen, hclose⟩ := bind_eq_ok_iff.1 ok
  obtain ⟨-, rfl⟩ := Prod.mk.inj (Except.ok.inj hclose)
  exact (h.openElement hopen).closeElement

theorem Coherent.call (h : b.Coherent) (c : Call) : (b.call c).Coherent := by
  cases c with
  | openElement name attributes =>
    rw [Builder.call]
    split
    · next ok => exact h.openElement ok
    · exact h
  | leaf name attributes =>
    rw [Builder.call]
    split
    · next ok => exact h.leaf ok
    · exact h
  | addText text => exact h.addText text
  | closeElement => exact h.closeElement

theorem coherent_run (calls : List Call) : (run calls).Coherent := by
  unfold run
  induction calls using List.reverseRecOn with
  | nil => exact coherent_empty
  | append_singleton calls c ih =>
    rw [List.foldl_append]
    exact ih.call c

end Builder

/-! ## Finished documents -/

namespace Document

variable {d : Document}

/-- The node that is found from a node by going down to a child, to one of its children, and so on,
each given by its index. -/
def follow (d : Document) (id : NodeId) : List Nat → Option NodeId
  | [] => some id
  | index :: rest => (d.child? id index).bind fun child => d.follow child rest

theorem follow_append (d : Document) (id : NodeId) (path path' : List Nat) :
    d.follow id (path ++ path') = (d.follow id path).bind fun id' => d.follow id' path' := by
  induction path generalizing id with
  | nil => rfl
  | cons index rest ih =>
    rw [List.cons_append, follow, follow, Option.bind_assoc]
    simp only [ih]

theorem follow_concat {id last : NodeId} {path : List Nat} {index : Nat} :
    d.follow id (path ++ [index]) = some last ↔
      ∃ p, d.follow id path = some p ∧ d.child? p index = some last := by
  rw [follow_append, Option.bind_eq_some_iff]
  simp [follow]

theorem children_eq (d : Document) (id : NodeId) : d.children id = childrenOf d.nodes id := by
  unfold children childrenOf
  cases d.nodes[id]? <;> rfl

theorem parent?_eq_some_iff {id p : NodeId} :
    d.parent? id = some p ↔ (parentTable d.nodes)[id]? = some (some p) := by
  unfold parent? parentTable
  rw [Array.getElem?_map]
  cases d.nodes[id]? <;> simp

/-- There is a root without parent, one way from it to each node, and each child has for parent the
node that it is a child of. -/
structure IsTree (d : Document) : Prop where
  root : d.parent? rootId = none
  follow : ∀ id < d.nodes.size, ∃! path, d.follow rootId path = some id
  parent_child : ∀ n index c, d.child? n index = some c → d.parent? c = some n

theorem parent?_of_child? (linked : Linked d.nodes) {n c : NodeId} {index : Nat}
    (h : d.child? n index = some c) : d.parent? c = some n := by
  rw [parent?_eq_some_iff, linked.parent_iff, ← children_eq]
  exact List.mem_of_getElem? h

theorem parent?_eq_none_iff (linked : Linked d.nodes) {id : NodeId} (h : id < d.nodes.size) :
    d.parent? id = none ↔ id = rootId := by
  have root := linked.root_iff id
  rw [parentTable, Array.getElem?_map, Array.getElem?_eq_getElem h] at root
  rw [parent?, Array.getElem?_eq_getElem h, Option.bind_some]
  simpa [d.nonempty, rootId] using root

theorem exists_follow (linked : Linked d.nodes) {id : NodeId} (h : id < d.nodes.size) :
    ∃ path, d.follow rootId path = some id := by
  induction id using Nat.strongRecOn with
  | ind id ih =>
    cases hparent : d.parent? id with
    | none => exact ⟨[], congrArg some ((parent?_eq_none_iff linked h).1 hparent).symm⟩
    | some p =>
      have table := parent?_eq_some_iff.1 hparent
      have less := linked.parent_lt id p table
      have mem := (linked.parent_iff id p).1 table
      rw [← children_eq] at mem
      obtain ⟨index, hindex⟩ := List.mem_iff_getElem?.1 mem
      obtain ⟨path, hpath⟩ := ih p less (Nat.lt_trans less h)
      exact ⟨path ++ [index], follow_concat.2 ⟨p, hpath, hindex⟩⟩

theorem child?_inj (linked : Linked d.nodes) {p c : NodeId} {index index' : Nat}
    (h : d.child? p index = some c) (h' : d.child? p index' = some c) : index = index' := by
  have nodup : (d.children p).Nodup := by
    rw [children_eq]
    exact (linked.increasing p).imp Nat.ne_of_lt
  exact (List.getElem?_inj (List.getElem?_eq_some_iff.1 h).1 nodup).1 (h.trans h'.symm)

/-- What is found by going down at least once has a parent. -/
theorem follow_concat_ne_root (linked : Linked d.nodes) {id : NodeId} {path : List Nat}
    {index : Nat} : d.follow id (path ++ [index]) ≠ some rootId := by
  intro h
  obtain ⟨p, -, hchild⟩ := follow_concat.1 h
  have none : d.parent? rootId = none := (parent?_eq_none_iff linked d.nonempty).2 rfl
  rw [parent?_of_child? linked hchild] at none
  cases none

theorem follow_inj (linked : Linked d.nodes) {id : NodeId} {path path' : List Nat}
    (h : d.follow rootId path = some id) (h' : d.follow rootId path' = some id) : path = path' := by
  induction path using List.reverseRecOn generalizing id path' with
  | nil =>
    obtain rfl := Option.some.inj h
    rcases List.eq_nil_or_concat path' with rfl | ⟨before, index, rfl⟩
    · rfl
    · rw [List.concat_eq_append] at h'
      exact absurd h' (follow_concat_ne_root linked)
  | append_singleton path index ih =>
    obtain ⟨p, hpath, hchild⟩ := follow_concat.1 h
    rcases List.eq_nil_or_concat path' with rfl | ⟨before, index', rfl⟩
    · obtain rfl := Option.some.inj h'
      exact absurd h (follow_concat_ne_root linked)
    · rw [List.concat_eq_append] at h' ⊢
      obtain ⟨p', hpath', hchild'⟩ := follow_concat.1 h'
      -- the last step on either way comes from the parent, by the index of the child there
      have parent := parent?_of_child? linked hchild
      rw [parent?_of_child? linked hchild'] at parent
      obtain rfl := Option.some.inj parent
      rw [ih hpath hpath', child?_inj linked hchild hchild']

theorem isTree (linked : Linked d.nodes) : d.IsTree :=
  ⟨(parent?_eq_none_iff linked d.nonempty).2 rfl,
    fun _ hid => (exists_follow linked hid).elim fun path h =>
      ⟨path, h, fun _ h' => follow_inj linked h' h⟩,
    fun _ _ _ => parent?_of_child? linked⟩

end Document

/-! ## Documents that are read -/

/-- Calls lead from an empty builder to this one. -/
def Builder.Reached (b : Builder) : Prop :=
  ∃ calls, Builder.run calls = b

theorem Builder.Reached.call {b : Builder} (h : b.Reached) (c : Call) : (b.call c).Reached := by
  obtain ⟨calls, rfl⟩ := h
  exact ⟨calls ++ [c], List.foldl_append⟩

namespace Worksheet.Progress

theorem exists_openElement_of_opening {p p' : Progress} {tag : Xml.Tag}
    (h : p.opening tag = .ok p') :
    ∃ name id scope, p.builder.openElement name tag.attributes = .ok (id, p'.builder) ∧
      p'.frames = (tag.name, scope) :: p.frames := by
  unfold opening at h
  split at h
  · cases h
  · dsimp only at h
    split at h
    · cases h
    · next opened =>
      obtain rfl := Except.ok.inj h
      exact ⟨_, _, _, opened, rfl⟩

section Invariant

variable {p p' : Progress} {P : Builder → Prop} (called : ∀ b c, P b → P (b.call c))

include called

theorem text_invariant (h : P p.builder) (chars : List Char) : P (p.text chars).builder :=
  called p.builder (.addText (String.ofList chars)) h

theorem reference_invariant (h : P p.builder) (name : List Char) :
    P (p.reference name).builder := by
  unfold reference
  split
  · exact text_invariant called h _
  · exact text_invariant called h _

theorem opening_invariant {tag : Xml.Tag} (h : P p.builder) (ok : p.opening tag = .ok p') :
    P p'.builder := by
  obtain ⟨name, id, scope, opened, -⟩ := exists_openElement_of_opening ok
  have kept := called p.builder (.openElement name tag.attributes) h
  rwa [Builder.call, opened] at kept

theorem leave_invariant (h : P p.builder) : P p.leave.builder :=
  called p.builder .closeElement h

/-- What a reader does to its builder can be called on one, so what all calls keep is kept. -/
theorem step_invariant {item : Xml.Item} (h : P p.builder) (ok : p.step item = .ok p') :
    P p'.builder := by
  cases item with
  | text chars =>
    obtain rfl := Except.ok.inj ok
    exact text_invariant called h chars
  | reference name =>
    obtain rfl := Except.ok.inj ok
    exact reference_invariant called h name
  | opening tag => exact opening_invariant called h ok
  | single tag =>
    rw [step] at ok
    cases hopening : p.opening tag with
    | error error =>
      rw [hopening] at ok
      cases ok
    | ok inside =>
      rw [hopening] at ok
      obtain rfl := Except.ok.inj ok
      exact leave_invariant called (opening_invariant called h hopening)
  | closing name =>
    rw [step, closing] at ok
    split at ok
    · cases ok
    · split at ok
      · obtain rfl := Except.ok.inj ok
        exact leave_invariant called h
      · cases ok
  | aside =>
    obtain rfl := Except.ok.inj ok
    exact h
  | fault fault => cases ok

theorem steps_invariant {items : List Xml.Item} (h : P p.builder) (ok : p.steps items = .ok p') :
    P p'.builder := by
  induction items generalizing p with
  | nil =>
    obtain rfl := Except.ok.inj ok
    exact h
  | cons item rest ih =>
    rw [steps] at ok
    split at ok
    · next first => exact ih (step_invariant called h first) ok
    · cases ok

end Invariant

theorem reached_steps {items : List Xml.Item} {p : Progress} (ok : steps {} items = .ok p) :
    p.builder.Reached :=
  steps_invariant (fun _ c h => Builder.Reached.call h c) ⟨[], rfl⟩ ok

end Worksheet.Progress

/-- A document that is read is the builder's, once all items have come in. -/
theorem Worksheet.exists_steps_of_read {text : String} {r : Converted Document}
    (h : read text = .ok r) :
    ∃ p, Progress.steps {} (Xml.items text) = .ok p ∧ p.builder.finish = .ok r.value := by
  unfold read at h
  split at h
  · next p ok =>
    unfold Progress.finish at h
    split at h
    · next d finished =>
      obtain rfl := Except.ok.inj h
      exact ⟨p, ok, finished⟩
    · cases h
  · cases h

/-- A document that is read is finished by a builder on which something was called. -/
theorem Worksheet.exists_finish_of_read {text : String} {r : Converted Document}
    (h : read text = .ok r) : ∃ calls, (Builder.run calls).finish = .ok r.value := by
  obtain ⟨p, ok, finished⟩ := exists_steps_of_read h
  obtain ⟨calls, hp⟩ := Progress.reached_steps ok
  exact ⟨calls, hp ▸ finished⟩

theorem Builder.isTree_of_finish {calls : List Builder.Call} {d : Document}
    (h : (Builder.run calls).finish = .ok d) : d.IsTree := by
  have coherent := Builder.coherent_run calls
  unfold Builder.finish at h
  split at h
  · cases h
  · split at h
    · obtain rfl := Except.ok.inj h
      exact Document.isTree coherent.toLinked
    · cases h

/-- After any calls on a builder the parents and the children of its nodes agree and make a tree
with the root 0, in which no number is twice a child, and the open nodes are the way to the
innermost of them. Elements are refused exactly if the root is there and closed, and nothing changes then.
Every document that is finished or read is a tree. -/
theorem Builder.coherent_run_and_isTree (calls : List Builder.Call) :
    (Builder.run calls).Coherent ∧
      ((List.range (Builder.run calls).nodes.size).flatMap
        (childrenOf (Builder.run calls).nodes)).Nodup ∧
      (∀ name attributes,
        ((∃ error, (Builder.run calls).openElement name attributes = .error error) ↔
          (Builder.run calls).opened = [] ∧ 0 < (Builder.run calls).nodes.size) ∧
        (∀ error, (Builder.run calls).openElement name attributes = .error error →
          (Builder.run calls).call (.openElement name attributes) = Builder.run calls) ∧
        (∀ error, (Builder.run calls).leaf name attributes = .error error ↔
          (Builder.run calls).openElement name attributes = .error error) ∧
        ∀ error, (Builder.run calls).leaf name attributes = .error error →
          (Builder.run calls).call (.leaf name attributes) = Builder.run calls) ∧
      (∀ d, (Builder.run calls).finish = .ok d → d.IsTree) ∧
      ∀ text r, Worksheet.read text = .ok r → r.value.IsTree := by
  have coherent := Builder.coherent_run calls
  refine ⟨coherent, coherent.nodup, fun name attributes =>
    ⟨exists_openElement_error_iff, fun error failed => ?_, fun error => leaf_eq_error_iff,
      fun error failed => ?_⟩, fun d => isTree_of_finish, fun text r h => ?_⟩
  · rw [Builder.call, failed]
  · rw [Builder.call, failed]
  · obtain ⟨calls', finished⟩ := Worksheet.exists_finish_of_read h
    exact isTree_of_finish finished

end Calcsheet
