import LiveBinding.Proofs.Resolution
import Mathlib.Data.List.Flatten

namespace LiveBinding

/-- Ids in the order in which they are handed out, between two counts. -/
structure Numbered (lo hi : Nat) (ids : List Nat) : Prop where
  le : lo ≤ hi
  ordered : ids.Pairwise (· < ·)
  between : ∀ i ∈ ids, lo ≤ i ∧ i < hi

namespace Numbered

variable {lo mid hi : Nat} {ids ids' : List Nat}

theorem nil (h : lo ≤ hi) : Numbered lo hi [] := ⟨h, .nil, nofun⟩

theorem sublist (h : Numbered lo hi ids) (hs : ids'.Sublist ids) : Numbered lo hi ids' :=
  ⟨h.le, h.ordered.sublist hs, fun i hi ↦ h.between i (hs.subset hi)⟩

theorem append (h : Numbered lo mid ids) (h' : Numbered mid hi ids') :
    Numbered lo hi (ids ++ ids') where
  le := Nat.le_trans h.le h'.le
  ordered := List.pairwise_append.mpr ⟨h.ordered, h'.ordered, fun i hi j hj ↦
    Nat.lt_of_lt_of_le (h.between i hi).2 (h'.between j hj).1⟩
  between i hi := by
    rcases List.mem_append.mp hi with hi | hi
    · exact ⟨(h.between i hi).1, Nat.lt_of_lt_of_le (h.between i hi).2 h'.le⟩
    · exact ⟨Nat.le_trans h.le (h'.between i hi).1, (h'.between i hi).2⟩

theorem next (h : Numbered lo hi ids) : Numbered lo (hi + 1) (ids ++ [hi]) :=
  h.append ⟨Nat.le_succ hi, List.pairwise_singleton _ _, by simp⟩

end Numbered

namespace Node

/-- The ids of all parts of a node. -/
def ids (n : Node) : List Nat := (n.parts true).map Part.id

/-- The inner accesses of a chain are left out. -/
theorem parts_sublist (n : Node) : (n.parts false).Sublist (n.parts true) := by
  cases n with
  | access info receiver member =>
    rw [parts, parts]
    exact List.Sublist.append_left (List.nil_sublist _) _
  | binary info op left right plan =>
    obtain ⟨left, c⟩ := left
    obtain ⟨right, c'⟩ := right
    rw [parts, parts]
  | unary info op operand kind =>
    obtain ⟨operand, c⟩ := operand
    rw [parts, parts]
  | _ => rw [parts, parts]

theorem ids_access (info : NodeInfo) (receiver : Node) (member : Member) :
    (access info receiver member).ids = (receiver.parts false).map Part.id ++
      ((memberParts member).map Part.id ++ [memberId info, info.id]) := by
  simp [ids, parts, Part.id, Node.info]

theorem ids_argParts (args : List Arg) :
    (argParts args).map Part.id = args.flatMap (·.node.ids) := by
  induction args with
  | nil => rfl
  | cons a rest ih =>
    obtain ⟨node, c⟩ := a
    rw [argParts, List.map_append, ih]
    rfl

end Node

namespace Build

open Node (ids)

variable {α β : Type}

/-- The parts of what a build gives are numbered one after the other, if those of what it is made
from are. -/
def Numbers (old : List Nat) (x : Build α) (new : α → List Nat) : Prop :=
  ∀ lo n a n', Numbered lo n old → x n = .ok (a, n') → Numbered lo n' (new a)

namespace Numbers

variable {old : List Nat} {new : α → List Nat} {later : β → List Nat}

theorem bind {x : Build α} {f : α → Build β} (hx : Numbers old x new)
    (hf : ∀ a, Numbers (new a) (f a) later) : Numbers old (x >>= f) later := by
  intro lo n b n' hold h
  simp only [Bind.bind, StateT.bind, Except.bind] at h
  split at h
  · cases h
  · next p hp => exact hf p.1 lo p.2 b n' (hx lo n p.1 p.2 hold hp) h

theorem pure {a : α} (h : (new a).Sublist old) : Numbers old (Pure.pure a : Build α) new := by
  rintro lo n a n' hold ⟨⟩
  exact hold.sublist h

theorem fail (e : CompileError) : Numbers old (Build.fail e : Build α) new := by
  rintro lo n a n' - ⟨⟩

theorem fail_bind (e : CompileError) (f : α → Build β) :
    Numbers old (Build.fail e >>= f) later := by
  rintro lo n a n' - ⟨⟩

/-- What makes no nodes leaves the numbers as they are. -/
theorem lift {e : Except CompileError α} {f : α → Build β}
    (hf : ∀ a, e = .ok a → Numbers old (f a) later) : Numbers old (liftM e >>= f) later := by
  intro lo n b n' hold h
  cases e with
  | error e => cases h
  | ok a => exact hf a rfl lo n b n' hold h

theorem orSpan {x : Build α} (span : Span) (h : Numbers old x new) :
    Numbers old (Build.orSpan span x) new := by
  intro lo n a n' hold hn
  simp only [Build.orSpan] at hn
  split at hn
  · next hx => exact h lo n a n' hold (hx.trans hn)
  · cases hn

/-- What is made from nothing is numbered behind everything that is there. -/
theorem behind {x : Build α} (h : Numbers [] x new) (old : List Nat) :
    Numbers old x fun a ↦ old ++ new a := by
  intro lo n a n' hold hn
  exact hold.append (h n n a n' (.nil (Nat.le_refl n)) hn)

end Numbers

section

variable {cx : BuildContext} {old : List Nat} {site : Site}

theorem numbers_push {facts : Facts} {make : NodeInfo → Node} {kept : List Nat}
    (hs : kept.Sublist old) (hm : ∀ info, (make info).ids = kept ++ [info.id]) :
    Numbers old (push site facts make) ids := by
  rintro lo n a n' hold ⟨⟩
  rw [hm]
  exact (hold.sublist hs).next

theorem numbers_literal (value : Literal) : Numbers old (literal site value) ids :=
  numbers_push (List.nil_sublist _) fun _ ↦ rfl

/-- The member is numbered before the access. -/
theorem numbers_access {receiver : Node} {member : Member} {facts : Facts}
    (hs : (receiver.ids ++ (Node.memberParts member).map Node.Part.id).Sublist old) :
    Numbers old (access site receiver member facts) ids := by
  rintro lo n a n' hold ⟨⟩
  rw [Node.ids_access, ← List.append_assoc]
  have hparts : ((receiver.parts false).map Node.Part.id ++
      (Node.memberParts member).map Node.Part.id).Sublist old :=
    ((receiver.parts_sublist.map _).append_right _).trans hs
  have h := ((hold.sublist hparts).next).next
  rwa [List.append_assoc] at h

theorem numbers_requireValue (n : Node) : Numbers old (requireValue n) fun _ ↦ old := by
  cases n with
  | typeRef => exact .fail _
  | _ => exact .pure (List.Sublist.refl _)

theorem numbers_ident (name : String) : Numbers old (ident cx site name) ids := by
  unfold ident
  split
  · exact numbers_push (List.nil_sublist _) fun _ ↦ rfl
  · split
    · exact numbers_push (List.nil_sublist _) fun _ ↦ rfl
    · exact .fail _

theorem numbers_field (receiver : Node) (name : String) :
    Numbers receiver.ids (field cx site receiver name) ids := by
  unfold field
  dsimp only
  split
  · split
    · exact numbers_access (by simp [Node.memberParts])
    · exact .fail _
  · split
    · exact numbers_access (by simp [Node.memberParts])
    · exact .fail _

theorem arguments_nodes {m : MethodInfo} {nodes : List Node} {params : List Ty}
    {facts facts' : Facts} {args : List Arg}
    (h : arguments cx m facts nodes params = .ok (args, facts')) :
    (args.map Arg.node).Sublist nodes := by
  induction nodes generalizing params facts args with
  | nil =>
    cases params <;> cases h <;> exact List.nil_sublist _
  | cons node nodes ih =>
    cases params with
    | nil =>
      cases h
      exact List.nil_sublist _
    | cons param params =>
      obtain ⟨c, -, h⟩ := except_bind_ok h
      obtain ⟨⟨rest, facts₁⟩, hrest, h⟩ := except_bind_ok h
      cases h
      exact (ih hrest).cons_cons node

theorem select_ids {kind : MemberKind} {name : String} {owner : Ty} {candidates : List MethodInfo}
    {facts facts' : Facts} {nodes : List Node} {m : MethodInfo} {args : List Arg}
    (h : select cx kind name owner candidates facts nodes = .ok (m, args, facts')) :
    ((Node.argParts args).map Node.Part.id).Sublist (nodes.flatMap ids) := by
  obtain ⟨m', -, h⟩ := except_bind_ok h
  obtain ⟨⟨args', facts₁⟩, hargs, h⟩ := except_bind_ok h
  cases h
  rw [Node.ids_argParts, ← List.flatMap_map]
  exact (arguments_nodes hargs).flatMap ids

theorem numbers_call (receiver : Node) (name : String) (nodes : List Node) :
    Numbers (receiver.ids ++ nodes.flatMap ids) (call cx site receiver name nodes) ids := by
  unfold call
  dsimp only
  split
  all_goals
    refine .lift fun ⟨m, args, facts⟩ h ↦ ?_
    exact numbers_access ((select_ids h).append_left _)

theorem numbers_construct (name : String) (nodes : List Node) :
    Numbers (nodes.flatMap ids) (construct cx site name nodes) ids := by
  unfold construct
  split
  · exact .fail _
  · refine .lift fun ⟨m, args, facts⟩ h ↦ ?_
    exact numbers_push (select_ids h) fun info ↦ by simp [ids, Node.parts, Node.Part.id, Node.info]

theorem numbers_indexByMethod (receiver index : Node) :
    Numbers (receiver.ids ++ index.ids) (indexByMethod cx site receiver index) ids := by
  unfold indexByMethod
  dsimp only
  refine .lift fun ⟨m, args, facts⟩ h ↦ ?_
  have hsub := select_ids h
  dsimp only
  split
  · next a =>
    obtain ⟨node, c⟩ := a
    refine numbers_access (List.Sublist.append_left ?_ _)
    simpa [Node.memberParts, Node.argParts] using hsub
  · exact .fail _

theorem numbers_indexChars (receiver index : Node) :
    Numbers (receiver.ids ++ index.ids) (indexChars cx site receiver index) ids := by
  unfold indexChars
  split
  · exact .fail _
  · split
    · split
      · exact numbers_literal _
      · exact .fail _
    · exact numbers_access (List.Sublist.refl _)

theorem numbers_index (receiver index : Node) :
    Numbers (receiver.ids ++ index.ids) (Build.index cx site receiver index) ids := by
  have hlast : Numbers (receiver.ids ++ index.ids) (if receiver.ty = .str
      then indexChars cx site receiver index else indexByMethod cx site receiver index) ids := by
    split
    · exact numbers_indexChars receiver index
    · exact numbers_indexByMethod receiver index
  unfold Build.index
  dsimp only
  cases (literalIndex? index).bind Literal.toInt64? with
  | none => exact hlast
  | some n =>
    dsimp only
    by_cases hneg : n.toInt < 0
    · rw [if_pos hneg]
      exact .fail_bind _ _
    · rw [if_neg hneg]
      exact hlast

theorem numbers_binaryNode {op : BinaryOp} {plan : Plan} {ty : Ty} (left right : Arg) :
    Numbers (left.node.ids ++ right.node.ids) (binaryNode site op left right plan ty) ids := by
  obtain ⟨l, c⟩ := left
  obtain ⟨r, c'⟩ := right
  exact numbers_push (List.Sublist.refl _) fun info ↦ by
    simp [ids, Node.parts, Node.Part.id, Node.info, Arg.node]

theorem numbers_concat (left right : Node) :
    Numbers (left.ids ++ right.ids) (concat cx site left right) ids := by
  unfold concat
  split
  · exact numbers_literal _
  · exact numbers_binaryNode (.mk left .empty) (.mk right .empty)

theorem promoted_node {op : BinaryOp} {left right node : Node} {kind : Prim} {a : Arg}
    (h : promoted cx op left right node kind = .ok a) : a.node = node := by
  unfold promoted at h
  dsimp only at h
  split at h <;> cases h
  rfl

theorem numbers_numeric (op : BinaryOp) (left right : Node) :
    Numbers (left.ids ++ right.ids) (numeric cx site op left right) ids := by
  unfold numeric
  split
  · exact numbers_concat left right
  · dsimp only
    by_cases hk : promote left right = .boolean
    · rw [if_pos hk]
      exact .fail_bind _ _
    · rw [if_neg hk]
      refine .lift fun l hl ↦ .lift fun r hr ↦ ?_
      rw [← promoted_node hl, ← promoted_node hr]
      split
      · split
        · exact numbers_literal _
        · exact numbers_binaryNode l r
      · split
        · exact numbers_literal _
        · exact numbers_binaryNode l r

theorem numbers_equality (op : BinaryOp) (left right : Node) :
    Numbers (left.ids ++ right.ids) (equality cx site op left right) ids := by
  unfold equality
  dsimp only
  split
  · exact .fail _
  · split
    · refine .lift fun l hl ↦ .lift fun r hr ↦ ?_
      rw [← promoted_node hl, ← promoted_node hr]
      split
      · exact numbers_literal _
      · exact numbers_binaryNode l r
    · split
      · exact .fail _
      · split
        · exact numbers_literal _
        · exact numbers_binaryNode (.mk left .empty) (.mk right .empty)

theorem condition_node {symbol : String} {node : Node} {a : Arg}
    (h : condition cx symbol node = .ok a) : a.node = node := by
  unfold condition at h
  dsimp only at h
  split at h <;> cases h
  rfl

theorem numbers_shortCircuit (op : BinaryOp) (left : Node) {right : Build Node}
    (hr : Numbers [] right ids) :
    Numbers left.ids (shortCircuit cx site op left right) ids := by
  unfold shortCircuit
  refine .lift fun l hl ↦ ?_
  dsimp only
  split
  · exact numbers_literal _
  · refine (hr.behind left.ids).bind fun r ↦ (numbers_requireValue r).bind fun _ ↦ ?_
    refine .lift fun a ha ↦ ?_
    rw [← condition_node hl, ← condition_node ha]
    split
    · exact numbers_literal _
    · exact numbers_binaryNode l a

theorem numbers_unary (op : UnaryOp) (operand : Node) :
    Numbers operand.ids (unary cx site op operand) ids := by
  have hnode (facts : Facts) (c : Fragment) (kind : Prim) :
      Numbers operand.ids (push site facts (.unary · op (.mk operand c) kind)) ids :=
    numbers_push (List.Sublist.refl _) fun info ↦ by simp [ids, Node.parts, Node.Part.id, Node.info]
  unfold unary
  cases op with
  | not =>
    refine .lift fun ⟨node, c⟩ ha ↦ ?_
    obtain rfl : node = operand := condition_node ha
    split
    · exact numbers_literal _
    · exact hnode _ _ _
  | neg =>
    dsimp only
    split
    · exact .fail _
    · split
      · exact numbers_literal _
      · exact hnode _ _ _

mutual

theorem numbers_expr (outer : Option Span) : (e : Expr) → Numbers [] (expr cx outer e) ids
  | .literal _ value => numbers_literal value
  | .ident _ name => (numbers_ident name).orSpan _
  | .field _ receiver name =>
    .orSpan _ <| (numbers_expr none receiver).bind fun r ↦ numbers_field r name
  | .call _ receiver name args =>
    .orSpan _ <| (numbers_expr none receiver).bind fun r ↦
      ((numbers_values args).behind r.ids).bind fun nodes ↦ numbers_call r name nodes
  | .construct _ typeName args =>
    .orSpan _ <| (numbers_values args).bind fun nodes ↦ numbers_construct typeName nodes
  | .index _ receiver position =>
    .orSpan _ <| (numbers_expr none receiver).bind fun r ↦ (numbers_requireValue r).bind fun _ ↦
      ((numbers_expr none position).behind r.ids).bind fun i ↦ (numbers_requireValue i).bind fun _ ↦
        numbers_index r i
  | .binary _ op left right => by
    refine .orSpan _ <| (numbers_expr none left).bind fun l ↦ (numbers_requireValue l).bind
      fun _ ↦ ?_
    split
    · exact numbers_shortCircuit op l (numbers_expr none right)
    · refine ((numbers_expr none right).behind l.ids).bind fun r ↦
        (numbers_requireValue r).bind fun _ ↦ ?_
      split
      · exact numbers_equality op l r
      · exact numbers_numeric op l r
  | .unary _ op operand =>
    .orSpan _ <| (numbers_expr none operand).bind fun o ↦ (numbers_requireValue o).bind fun _ ↦
      numbers_unary op o
  | .paren _ inner => numbers_expr _ inner

theorem numbers_values : (es : List Expr) → Numbers [] (values cx es) (·.flatMap ids)
  | [] => .pure (List.Sublist.refl _)
  | e :: rest =>
    (numbers_expr none e).bind fun n ↦ (numbers_requireValue n).bind fun _ ↦
      ((numbers_values rest).behind n.ids).bind fun _ ↦ .pure (List.Sublist.refl _)

end

end

end Build

open Build in
/-- The parts of a tree are numbered in order, each with an id of its own. -/
theorem Tree.build_numbered {cx : BuildContext} {tree : Tree} (h : Tree.build cx = .ok tree) :
    Numbered 0 tree.size tree.root.ids := by
  obtain ⟨⟨root, size⟩, hroot, h⟩ := except_bind_ok h
  cases h
  have hg : Numbers [] (do
      let root ← Build.expr cx none cx.parsed.root
      Build.requireValue root
      return root : Build Node) Node.ids :=
    (numbers_expr none _).bind fun n ↦ (numbers_requireValue n).bind fun _ ↦
      .pure (List.Sublist.refl _)
  exact hg 0 0 root size (.nil (Nat.le_refl 0)) hroot

end LiveBinding
