import LiveBinding.Proofs.Grammar

namespace LiveBinding

namespace Expr

def shapeAt? (nodes : List Entry) (n : Nat) : Option Shape := nodes[n]?.map Entry.shape

mutual

/-- The node at position `n`, together with the nodes that it names, is the phrase. -/
inductive Stands (nodes : List Entry) : Nat → Phrase → Prop
  | literal {n : Nat} {value : Literal} : shapeAt? nodes n = some (.literal value) →
    Stands nodes n (.literal value)
  | ident {n : Nat} {name : String} : shapeAt? nodes n = some (.ident name) →
    Stands nodes n (.ident name)
  | field {n r : Nat} {name : String} {p : Phrase} : shapeAt? nodes n = some (.field r name) →
    Stands nodes r p → Stands nodes n (.field p name)
  | call {n r : Nat} {name : String} {ns : List Nat} {p : Phrase} {ps : List Phrase} :
    shapeAt? nodes n = some (.call r name ns) → Stands nodes r p → StandsAll nodes ns ps →
      Stands nodes n (.call p name ps)
  | construct {n : Nat} {name : String} {ns : List Nat} {ps : List Phrase} :
    shapeAt? nodes n = some (.construct name ns) → StandsAll nodes ns ps →
      Stands nodes n (.construct name ps)
  | index {n r i : Nat} {p q : Phrase} : shapeAt? nodes n = some (.index r i) →
    Stands nodes r p → Stands nodes i q → Stands nodes n (.index p q)
  | binary {n l r : Nat} {op : BinaryOp} {p q : Phrase} :
    shapeAt? nodes n = some (.binary op l r) → Stands nodes l p → Stands nodes r q →
      Stands nodes n (.binary op p q)
  | unary {n o : Nat} {op : UnaryOp} {p : Phrase} : shapeAt? nodes n = some (.unary op o) →
    Stands nodes o p → Stands nodes n (.unary op p)

inductive StandsAll (nodes : List Entry) : List Nat → List Phrase → Prop
  | nil : StandsAll nodes [] []
  | cons {n : Nat} {ns : List Nat} {p : Phrase} {ps : List Phrase} :
    Stands nodes n p → StandsAll nodes ns ps → StandsAll nodes (n :: ns) (p :: ps)

end

variable {nodes : List Entry}

mutual

/-- A position holds one phrase only. -/
theorem Stands.unique : ∀ {n : Nat} {p q : Phrase}, Stands nodes n p → Stands nodes n q → p = q
  | _, _, _, .literal h, hq => by
    cases hq with
    | literal h' =>
      cases h.symm.trans h'
      rfl
    | _ => grind
  | _, _, _, .ident h, hq => by
    cases hq with
    | ident h' =>
      cases h.symm.trans h'
      rfl
    | _ => grind
  | _, _, _, .field h hp, hq => by
    cases hq with
    | field h' hp' =>
      cases h.symm.trans h'
      rw [hp.unique hp']
    | _ => grind
  | _, _, _, .call h hp hps, hq => by
    cases hq with
    | call h' hp' hps' =>
      cases h.symm.trans h'
      rw [hp.unique hp', hps.unique hps']
    | _ => grind
  | _, _, _, .construct h hps, hq => by
    cases hq with
    | construct h' hps' =>
      cases h.symm.trans h'
      rw [hps.unique hps']
    | _ => grind
  | _, _, _, .index h hp hi, hq => by
    cases hq with
    | index h' hp' hi' =>
      cases h.symm.trans h'
      rw [hp.unique hp', hi.unique hi']
    | _ => grind
  | _, _, _, .binary h hl hr, hq => by
    cases hq with
    | binary h' hl' hr' =>
      cases h.symm.trans h'
      rw [hl.unique hl', hr.unique hr']
    | _ => grind
  | _, _, _, .unary h hp, hq => by
    cases hq with
    | unary h' hp' =>
      cases h.symm.trans h'
      rw [hp.unique hp']
    | _ => grind

theorem StandsAll.unique : ∀ {ns : List Nat} {ps qs : List Phrase},
    StandsAll nodes ns ps → StandsAll nodes ns qs → ps = qs
  | _, _, _, .nil, .nil => rfl
  | _, _, _, .cons hp hps, .cons hq hqs => by rw [hp.unique hq, hps.unique hqs]

end

theorem shapeAt?_of_isPrefix {nodes' : List Entry} {n : Nat} {shape : Shape}
    (hnodes : nodes <+: nodes') (h : shapeAt? nodes n = some shape) :
    shapeAt? nodes' n = some shape := by
  obtain ⟨more, rfl⟩ := hnodes
  obtain ⟨entry, hentry, hshape⟩ := Option.map_eq_some_iff.mp h
  have hn := (List.getElem?_eq_some_iff.mp hentry).1
  rw [shapeAt?, List.getElem?_append_left hn]
  exact h

mutual

/-- Nodes that come later do not matter. -/
theorem Stands.extend {nodes' : List Entry} (hnodes : nodes <+: nodes') :
    ∀ {n : Nat} {p : Phrase}, Stands nodes n p → Stands nodes' n p
  | _, _, .literal h => .literal (shapeAt?_of_isPrefix hnodes h)
  | _, _, .ident h => .ident (shapeAt?_of_isPrefix hnodes h)
  | _, _, .field h hp => .field (shapeAt?_of_isPrefix hnodes h) (hp.extend hnodes)
  | _, _, .call h hp hps =>
    .call (shapeAt?_of_isPrefix hnodes h) (hp.extend hnodes) (hps.extend hnodes)
  | _, _, .construct h hps => .construct (shapeAt?_of_isPrefix hnodes h) (hps.extend hnodes)
  | _, _, .index h hp hi =>
    .index (shapeAt?_of_isPrefix hnodes h) (hp.extend hnodes) (hi.extend hnodes)
  | _, _, .binary h hl hr =>
    .binary (shapeAt?_of_isPrefix hnodes h) (hl.extend hnodes) (hr.extend hnodes)
  | _, _, .unary h hp => .unary (shapeAt?_of_isPrefix hnodes h) (hp.extend hnodes)

theorem StandsAll.extend {nodes' : List Entry} (hnodes : nodes <+: nodes') :
    ∀ {ns : List Nat} {ps : List Phrase}, StandsAll nodes ns ps → StandsAll nodes' ns ps
  | _, _, .nil => .nil
  | _, _, .cons hp hps => .cons (hp.extend hnodes) (hps.extend hnodes)

end

/-- What phrase is at a position depends on the shape of the node there only. -/
theorem Stands.copy {m n : Nat} {p : Phrase} (hp : Stands nodes n p)
    (hm : shapeAt? nodes m = shapeAt? nodes n) : Stands nodes m p := by
  cases hp with
  | literal h => exact .literal (hm.trans h)
  | ident h => exact .ident (hm.trans h)
  | field h hp => exact .field (hm.trans h) hp
  | call h hp hps => exact .call (hm.trans h) hp hps
  | construct h hps => exact .construct (hm.trans h) hps
  | index h hp hi => exact .index (hm.trans h) hp hi
  | binary h hl hr => exact .binary (hm.trans h) hl hr
  | unary h hp => exact .unary (hm.trans h) hp

/-- Laying out a phrase leaves the nodes before as they are and puts its root last. -/
structure Lays (out out' : Array Entry) (p : Phrase) : Prop where
  grows : out.toList <+: out'.toList
  size_pos : 0 < out'.size
  root : Stands out'.toList (out'.size - 1) p

theorem shapeAt?_push (out : Array Entry) (shape : Shape) (span : Span) :
    shapeAt? (out.push ⟨shape, span⟩).toList out.size = some shape := by
  simp [shapeAt?]

theorem isPrefix_push (out : Array Entry) (entry : Entry) :
    out.toList <+: (out.push entry).toList := ⟨[entry], Array.toList_push.symm⟩

theorem Lays.push {out out' : Array Entry} {shape : Shape} {span : Span} {p : Phrase}
    (hout : out.toList <+: out'.toList)
    (hp : Stands (out'.push ⟨shape, span⟩).toList out'.size p) :
    Lays out (out'.push ⟨shape, span⟩) p where
  grows := hout.trans (isPrefix_push ..)
  size_pos := by simp
  root := by simpa only [Array.size_push, Nat.add_sub_cancel] using hp

mutual

theorem flatten_lays (out : Array Entry) : (e : Expr) → Lays out (flatten out e) e.phrase
  | .literal span value => .push List.prefix_rfl (.literal (shapeAt?_push ..))
  | .ident span name => .push List.prefix_rfl (.ident (shapeAt?_push ..))
  | .field span receiver name => by
    have hreceiver := flatten_lays out receiver
    apply Lays.push hreceiver.grows
    exact .field (shapeAt?_push ..) (hreceiver.root.extend (isPrefix_push ..))
  | .call span receiver name args => by
    have hreceiver := flatten_lays out receiver
    obtain ⟨hextends, hargs⟩ := flattenAll_lays (flatten out receiver) args
    apply Lays.push (hreceiver.grows.trans hextends)
    refine .call (shapeAt?_push ..) ?_ (hargs.extend (isPrefix_push ..))
    exact hreceiver.root.extend (hextends.trans (isPrefix_push ..))
  | .construct span name args => by
    obtain ⟨hextends, hargs⟩ := flattenAll_lays out args
    apply Lays.push hextends
    exact .construct (shapeAt?_push ..) (hargs.extend (isPrefix_push ..))
  | .index span receiver position => by
    have hreceiver := flatten_lays out receiver
    have hposition := flatten_lays (flatten out receiver) position
    apply Lays.push (hreceiver.grows.trans hposition.grows)
    refine .index (shapeAt?_push ..) ?_ (hposition.root.extend (isPrefix_push ..))
    exact hreceiver.root.extend (hposition.grows.trans (isPrefix_push ..))
  | .binary span op left right => by
    have hleft := flatten_lays out left
    have hright := flatten_lays (flatten out left) right
    apply Lays.push (hleft.grows.trans hright.grows)
    refine .binary (shapeAt?_push ..) ?_ (hright.root.extend (isPrefix_push ..))
    exact hleft.root.extend (hright.grows.trans (isPrefix_push ..))
  | .unary span op operand => by
    have hoperand := flatten_lays out operand
    apply Lays.push hoperand.grows
    exact .unary (shapeAt?_push ..) (hoperand.root.extend (isPrefix_push ..))
  | .paren span inner => by
    have hinner := flatten_lays out inner
    have hpos := hinner.size_pos
    obtain ⟨entry, hentry⟩ : ∃ entry, (flatten out inner).back? = some entry :=
      ⟨_, Array.back?_eq_getElem?.trans (Array.getElem?_eq_getElem (by omega))⟩
    rw [flatten, hentry]
    apply Lays.push hinner.grows
    -- the copy has the shape of the node before it
    refine (hinner.root.extend (isPrefix_push ..)).copy ((shapeAt?_push ..).trans ?_)
    symm
    apply shapeAt?_of_isPrefix (isPrefix_push ..)
    rw [Array.back?_eq_getElem?, ← Array.getElem?_toList] at hentry
    rw [shapeAt?, hentry]
    rfl

theorem flattenAll_lays (out : Array Entry) : (es : List Expr) →
    out.toList <+: (flattenAll out es).1.toList ∧
      StandsAll (flattenAll out es).1.toList (flattenAll out es).2 (phrases es)
  | [] => ⟨List.prefix_rfl, .nil⟩
  | e :: rest => by
    have he := flatten_lays out e
    obtain ⟨hextends, hrest⟩ := flattenAll_lays (flatten out e) rest
    exact ⟨he.grows.trans hextends, .cons (he.root.extend hextends) hrest⟩

end

end Expr

/-- The last node is the root of the whole tree. -/
theorem ParsedExpr.stands_root (p : ParsedExpr) :
    Expr.Stands p.entries (p.entries.length - 1) p.root.phrase := by
  have hroot := (Expr.flatten_lays #[] p.root).root
  rwa [← Array.length_toList] at hroot

end LiveBinding
