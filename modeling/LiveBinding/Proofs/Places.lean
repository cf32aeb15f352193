import Mathlib.Logic.Relation
import LiveBinding.Proofs.Scanning

/-!
Spans name their nodes: what stands in the span of a node of an expression is the text of that node,
and reads as it again.
-/

namespace LiveBinding

namespace Token

/-- Every token stops before the next one starts. -/
structure Ordered (ts : List Token) : Prop where
  each : ∀ t ∈ ts, t.span.start ≤ t.span.stop
  chain : ts.Pairwise fun t u ↦ t.span.stop ≤ u.span.start

variable {ts us : List Token} {s t : Span}

theorem Spelled.inOrder {pos : Nat} {cs : List Char} (h : Spelled pos cs ts) : Ordered ts :=
  ⟨fun t ht ↦ (h.ordered.1 t ht).2, h.ordered.2⟩

theorem Ordered.left (h : Ordered (ts ++ us)) : Ordered ts :=
  ⟨fun t ht ↦ h.each t (List.mem_append_left _ ht), (List.pairwise_append.mp h.chain).1⟩

theorem Ordered.right (h : Ordered (ts ++ us)) : Ordered us :=
  ⟨fun t ht ↦ h.each t (List.mem_append_right _ ht), (List.pairwise_append.mp h.chain).2.1⟩

theorem Ordered.across (h : Ordered (ts ++ us)) {t u : Token} (ht : t ∈ ts) (hu : u ∈ us) :
    t.span.stop ≤ u.span.start := (List.pairwise_append.mp h.chain).2.2 t ht u hu

theorem Ordered.first_le (h : Ordered ts) {first t : Token} (hfirst : ts.head? = some first)
    (ht : t ∈ ts) : first.span.start ≤ t.span.start := by
  obtain ⟨ts, rfl⟩ := List.head?_eq_some_iff.mp hfirst
  rcases List.mem_cons.mp ht with rfl | ht
  · exact Nat.le_refl _
  · exact Nat.le_trans (h.each _ List.mem_cons_self) ((List.pairwise_cons.mp h.chain).1 t ht)

theorem Ordered.le_last (h : Ordered ts) {last t : Token} (hlast : ts.getLast? = some last)
    (ht : t ∈ ts) : t.span.stop ≤ last.span.stop := by
  obtain ⟨ts, rfl⟩ := List.getLast?_eq_some_iff.mp hlast
  rcases List.mem_append.mp ht with ht | ht
  · exact Nat.le_trans (h.across ht List.mem_cons_self) (h.each last (by simp))
  · obtain rfl := List.mem_singleton.mp ht
    exact Nat.le_refl _

/-- Merging the spans of the first and the last of some tokens in order covers all of them. -/
theorem Hull.spans (h : Hull ts s) (ho : Ordered ts) : Spans ts s := by
  induction h with
  | one t => exact ⟨t, t, rfl, rfl, rfl⟩
  | @merge ts us s t between _ _ ih ih' =>
    obtain ⟨first, last, hfirst, hlast, rfl⟩ := ih ho.left
    obtain ⟨first', last', hfirst', hlast', rfl⟩ := ih' ho.right.right
    have hmem := List.mem_of_mem_head? (Option.mem_def.mpr hfirst)
    have hmem' := List.mem_of_mem_head? (Option.mem_def.mpr hfirst')
    have hstart : first.span.start ≤ first'.span.start :=
      Nat.le_trans (ho.each first (List.mem_append_left _ hmem))
        (ho.across hmem (List.mem_append_right _ hmem'))
    have hmemLast := List.mem_of_getLast? hlast
    have hmemLast' := List.mem_of_getLast? hlast'
    have hstop : last.span.stop ≤ last'.span.stop :=
      Nat.le_trans (ho.across hmemLast (List.mem_append_right _ hmemLast'))
        (ho.each last' (List.mem_append_right _ (List.mem_append_right _ hmemLast')))
    refine ⟨first, last', ?_, ?_, ?_⟩
    · rw [List.head?_append, hfirst]
      rfl
    · rw [← List.append_assoc, List.getLast?_append, hlast']
      rfl
    · rw [Span.merge, Nat.min_eq_left hstart, Nat.max_eq_right hstop]

end Token

namespace Expr

open Token

variable {ts us : List Token} {e : Expr} {es : List Expr}

theorem Written.spans (h : Written ts e) (ho : Ordered ts) : Spans ts e.span := h.hull.spans ho

theorem Parts.mem (h : Parts ts es) (he : e ∈ es) :
    ∃ before used after, ts = before ++ (used ++ after) ∧ Written used e := by
  induction es generalizing ts with
  | nil => nomatch he
  | cons e' es ih =>
    cases h with
    | @cons used ts _ _ before h hs =>
      rcases List.mem_cons.mp he with rfl | he
      · exact ⟨before, used, ts, rfl, h⟩
      · obtain ⟨before', used', after, rfl, h'⟩ := ih hs he
        exact ⟨before ++ (used ++ before'), used', after, by simp, h'⟩

/-- An expression that is written within some tokens. -/
theorem Written.within {s : Span} {before after : List Token}
    (ho : Ordered (before ++ (ts ++ after))) (hs : Spans (before ++ (ts ++ after)) s)
    (h : Written ts e) : s.start ≤ e.span.start ∧ e.span.stop ≤ s.stop := by
  obtain ⟨first, last, hfirst, hlast, rfl⟩ := hs
  obtain ⟨first', last', hfirst', hlast', heq⟩ := h.spans ho.right.left
  rw [heq]
  constructor
  · exact ho.first_le hfirst (by simp [List.mem_of_mem_head? (Option.mem_def.mpr hfirst')])
  · exact ho.le_last hlast (by simp [List.mem_of_getLast? hlast'])

theorem Parts.pairwise (h : Parts ts es) (ho : Ordered ts) :
    (es.map span).Pairwise fun s t ↦ s.stop ≤ t.start := by
  induction es generalizing ts with
  | nil => exact .nil
  | cons e es ih =>
    cases h with
    | @cons used ts _ _ before h hs =>
      rw [List.map_cons, List.pairwise_cons]
      refine ⟨fun t ht ↦ ?_, ih hs ho.right.right⟩
      obtain ⟨e', he', rfl⟩ := List.mem_map.mp ht
      obtain ⟨before', used', after', rfl, h'⟩ := hs.mem he'
      obtain ⟨_, last, -, hlast, heq⟩ := h.spans ho.right.left
      obtain ⟨first, _, hfirst, -, heq'⟩ := h'.spans ho.right.right.right.left
      rw [heq, heq']
      refine ho.right.across (List.mem_of_getLast? hlast) ?_
      simp [List.mem_of_mem_head? (Option.mem_def.mpr hfirst)]

/-- The nodes that a node names. -/
def Shape.children : Shape → List Nat
  | literal _ | ident _ => []
  | field receiver _ => [receiver]
  | call receiver _ args => receiver :: args
  | construct _ args => args
  | index receiver position => [receiver, position]
  | binary _ left right => [left, right]
  | unary _ operand => [operand]

/-- The node at position `n` has the span and the phrase of an expression, and the nodes that it names
are the operands of the expression. -/
inductive Lies (nodes : List Entry) : Nat → Expr → Prop
  | mk {n : Nat} {e : Expr} {entry : Entry} : nodes[n]? = some entry → entry.span = e.span →
    Stands nodes n e.phrase → entry.shape.children.length = e.children.length →
    (∀ (i m : Nat) (c : Expr), entry.shape.children[i]? = some m → e.children[i]? = some c →
      Lies nodes m c) →
      Lies nodes n e

variable {nodes nodes' : List Entry} {n : Nat} {entry : Entry}

theorem Lies.extend (hnodes : nodes <+: nodes') (h : Lies nodes n e) : Lies nodes' n e := by
  induction h with
  | @mk n e entry hentry hspan hstands hlength _ ih =>
    obtain ⟨more, rfl⟩ := hnodes
    have hn := (List.getElem?_eq_some_iff.mp hentry).1
    exact .mk ((List.getElem?_append_left hn).trans hentry) hspan (hstands.extend ⟨more, rfl⟩)
      hlength ih

theorem Lies.exists_entry (h : Lies nodes n e) : ∃ entry, nodes[n]? = some entry := by
  cases h with
  | mk h => exact ⟨_, h⟩

theorem Lies.found (h : Lies nodes n e) (hentry : nodes[n]? = some entry) :
    entry.span = e.span ∧ Stands nodes n e.phrase ∧
      List.Forall₂ (Lies nodes) entry.shape.children e.children := by
  cases h with
  | @mk _ _ entry' hentry' hspan hstands hlength hchildren =>
    obtain rfl := Option.some.inj (hentry.symm.trans hentry')
    refine ⟨hspan, hstands, List.forall₂_iff_get.mpr ⟨hlength, fun i hi hi' ↦ ?_⟩⟩
    exact hchildren i _ _ (List.getElem?_eq_getElem hi) (List.getElem?_eq_getElem hi')

theorem Lies.span_eq (h : Lies nodes n e) : (nodes[n]?).map Entry.span = some e.span := by
  obtain ⟨entry, hentry⟩ := h.exists_entry
  rw [hentry, Option.map_some, (h.found hentry).1]

theorem Lies.push {out : Array Entry} {shape : Shape} {s : Span} (hs : s = e.span)
    (hstands : Stands (out.push ⟨shape, s⟩).toList ((out.push ⟨shape, s⟩).size - 1) e.phrase)
    (h : List.Forall₂ (Lies out.toList) shape.children e.children) :
    Lies (out.push ⟨shape, s⟩).toList ((out.push ⟨shape, s⟩).size - 1) e := by
  have hentry : (out.push ⟨shape, s⟩).toList[(out.push ⟨shape, s⟩).size - 1]? = some ⟨shape, s⟩ := by
    simp
  refine .mk hentry hs hstands h.length_eq fun i m c hm hc ↦ ?_
  obtain ⟨hi, rfl⟩ := List.getElem?_eq_some_iff.mp hm
  obtain ⟨hi', rfl⟩ := List.getElem?_eq_some_iff.mp hc
  exact (h.get hi hi').extend (isPrefix_push ..)

mutual

theorem flatten_lies (out : Array Entry) :
    (e : Expr) → Lies (flatten out e).toList ((flatten out e).size - 1) e
  | .literal s value => .push rfl (flatten_lays out (.literal s value)).root .nil
  | .ident s name => .push rfl (flatten_lays out (.ident s name)).root .nil
  | .field s receiver name =>
    .push rfl (flatten_lays out (.field s receiver name)).root (.cons (flatten_lies out receiver) .nil)
  | .call s receiver name args => by
    have hreceiver := flatten_lies out receiver
    have hargs := flattenAll_lies (flatten out receiver) args
    refine .push rfl (flatten_lays out (.call s receiver name args)).root (.cons ?_ hargs)
    exact hreceiver.extend (flattenAll_lays _ args).1
  | .construct s name args =>
    .push rfl (flatten_lays out (.construct s name args)).root (flattenAll_lies out args)
  | .index s receiver position => by
    have hreceiver := flatten_lies out receiver
    have hposition := flatten_lies (flatten out receiver) position
    refine .push rfl (flatten_lays out (.index s receiver position)).root
      (.cons ?_ (.cons hposition .nil))
    exact hreceiver.extend (flatten_lays _ position).grows
  | .binary s op left right => by
    have hleft := flatten_lies out left
    have hright := flatten_lies (flatten out left) right
    refine .push rfl (flatten_lays out (.binary s op left right)).root
      (.cons ?_ (.cons hright .nil))
    exact hleft.extend (flatten_lays _ right).grows
  | .unary s op operand =>
    .push rfl (flatten_lays out (.unary s op operand)).root (.cons (flatten_lies out operand) .nil)
  | .paren s inner => by
    have hroot := (flatten_lays out (.paren s inner)).root
    have hinner := flatten_lies out inner
    have hpos := (flatten_lays out inner).size_pos
    obtain ⟨entry, hentry⟩ : ∃ entry, (flatten out inner).back? = some entry :=
      ⟨_, Array.back?_eq_getElem?.trans (Array.getElem?_eq_getElem (by omega))⟩
    simp only [flatten, hentry] at hroot ⊢
    rw [Array.back?_eq_getElem?, ← Array.getElem?_toList] at hentry
    exact .push rfl hroot (hinner.found hentry).2.2

theorem flattenAll_lies (out : Array Entry) : (es : List Expr) →
    List.Forall₂ (Lies (flattenAll out es).1.toList) (flattenAll out es).2 es
  | [] => .nil
  | e :: rest => by
    refine .cons ?_ (flattenAll_lies (flatten out e) rest)
    exact (flatten_lies out e).extend (flattenAll_lays (flatten out e) rest).1

end

end Expr

namespace ParsedExpr

open LiveBinding.Expr

variable (p : ParsedExpr)

/-- One node names another one. -/
def Names (m n : Nat) : Prop := ∃ entry, p.entries[m]? = some entry ∧ n ∈ entry.shape.children

/-- The node at position `n` is part of the tree. -/
def Reachable (n : Nat) : Prop := Relation.ReflTransGen p.Names (p.entries.length - 1) n

theorem lies_root : Lies p.entries (p.entries.length - 1) p.root := by
  have hroot := flatten_lies #[] p.root
  rwa [← Array.length_toList] at hroot

/-- Every node of the tree is written somewhere among the tokens of the root. -/
theorem Reachable.written {p : ParsedExpr} {ts : List Token} {n : Nat} (hn : p.Reachable n)
    (hroot : Written ts p.root) :
    ∃ e before used after, Lies p.entries n e ∧ ts = before ++ (used ++ after) ∧ Written used e := by
  induction hn with
  | refl => exact ⟨p.root, [], ts, [], p.lies_root, by simp, hroot⟩
  | tail _ hnames ih =>
    obtain ⟨e, before, used, after, hlies, rfl, hwritten⟩ := ih
    obtain ⟨entry, hentry, hmem⟩ := hnames
    obtain ⟨-, -, hchildren⟩ := hlies.found hentry
    obtain ⟨c, hc, hcLies⟩ := exists_of_mem_right hchildren.flip hmem
    obtain ⟨before', used', after', rfl, hused'⟩ := hwritten.parts.mem hc
    exact ⟨c, before ++ before', used', after' ++ after, hcLies, by simp, hused'⟩

end ParsedExpr

namespace Text

theorem dropBytes_append (cs rest : List Char) : dropBytes (byteSize cs) (cs ++ rest) = some rest := by
  induction cs with
  | nil => cases rest <;> rfl
  | cons c cs ih =>
    have hpos := c.utf8Size_pos
    rw [List.cons_append, byteSize, dropBytes, if_neg (by omega), if_pos (by omega),
      Nat.add_sub_cancel_left, ih]

theorem takeBytes_append (cs rest : List Char) : takeBytes (byteSize cs) (cs ++ rest) = some cs := by
  induction cs with
  | nil => cases rest <;> rfl
  | cons c cs ih =>
    have hpos := c.utf8Size_pos
    rw [List.cons_append, byteSize, takeBytes, if_neg (by omega), if_pos (by omega),
      Nat.add_sub_cancel_left, ih]
    rfl

theorem slice?_append {s : String} {before marked after : List Char}
    (h : s.toList = before ++ (marked ++ after)) :
    slice? s (byteSize before) (byteSize before + byteSize marked) = some (String.ofList marked) := by
  rw [slice?, if_pos (Nat.le_add_right _ _), h, dropBytes_append, Nat.add_sub_cancel_left,
    Option.bind_some, takeBytes_append]
  rfl

end Text

/-- What is marked can be cut out, where offsets reach as far. -/
theorem Span.slice?_of_le {text : String} {before marked after : List Char}
    (h : text.toList = before ++ (marked ++ after))
    (hsize : Text.byteSize text.toList ≤ maxOffset) :
    (ofRange (Text.byteSize before) (Text.byteSize before + Text.byteSize marked)).slice? text =
      some (String.ofList marked) := by
  have hstop : Text.byteSize before + Text.byteSize marked ≤ maxOffset := by
    rw [h, Text.byteSize_append, Text.byteSize_append] at hsize
    omega
  rw [slice?, ofRange, Nat.min_eq_left (by omega), Nat.min_eq_left hstop, Text.slice?_append h]

theorem Span.shift_ofRange {start stop delta : Nat} (h : stop ≤ maxOffset) (h' : start ≤ stop) :
    (ofRange start stop).shift delta = ofRange (delta + start) (delta + stop) := by
  simp only [shift, ofRange, Nat.min_eq_left h, Nat.min_eq_left (Nat.le_trans h' h), Nat.add_comm delta]

theorem Text.trimEnd_append (cs : List Char) :
    ∃ trail, trimEnd cs ++ trail = cs ∧ ∀ c ∈ trail, isBlank c := by
  refine ⟨(cs.reverse.takeWhile isBlank).reverse, ?_, fun c hc ↦ ?_⟩
  · rw [trimEnd, ← List.reverse_append, List.takeWhile_append_dropWhile, List.reverse_reverse]
  · exact List.all_eq_true.mp List.all_takeWhile c (List.mem_reverse.mp hc)

theorem unwrapExpression?_eq_some {cs inner : List Char} (h : unwrapExpression? cs = some inner) :
    cs = '$' :: '\x7b' :: (inner ++ ['\x7d']) := by
  unfold unwrapExpression? at h
  split at h
  · split at h
    · next hlast =>
      cases h
      obtain ⟨body, rfl⟩ := List.getLast?_eq_some_iff.mp hlast
      rw [List.dropLast_concat]
    · cases h
  · cases h

/-- An attribute is an expression between its marks, with blanks around them. -/
structure Encloses (text : String) (lead inner trail : List Char) : Prop where
  split : text.toList = lead ++ '$' :: '\x7b' :: (inner ++ '\x7d' :: trail)
  lead : ∀ c ∈ lead, Text.isBlank c
  trail : ∀ c ∈ trail, Text.isBlank c

theorem parseAttribute_cases (text : String) :
    (∃ plain, parseAttribute text = .ok (.literal plain)) ∨
      ∃ lead inner trail, Encloses text lead inner trail ∧ parseAttribute text =
        (parseExpression (String.ofList inner) (Text.byteSize lead + 2)).map .expression := by
  unfold parseAttribute
  split
  · exact .inl ⟨_, rfl⟩
  · dsimp only
    split
    · exact .inl ⟨text, rfl⟩
    · next inner hinner =>
      obtain ⟨trail, htrail, hblank⟩ := Text.trimEnd_append (Text.trimStart text.toList)
      have hlead : text.toList.takeWhile Text.isBlank ++ Text.trimStart text.toList = text.toList :=
        List.takeWhile_append_dropWhile
      have hblank' : ∀ c ∈ text.toList.takeWhile Text.isBlank, Text.isBlank c :=
        List.all_eq_true.mp List.all_takeWhile
      generalize text.toList.takeWhile Text.isBlank = lead at hlead hblank'
      generalize Text.trimStart text.toList = start at *
      have hbase : Text.byteSize text.toList - Text.byteSize start = Text.byteSize lead := by
        rw [← hlead, Text.byteSize_append, Nat.add_sub_cancel]
      refine .inr ⟨lead, inner, trail, ⟨?_, hblank', hblank⟩, by rw [hbase]⟩
      rw [← hlead, ← htrail, unwrapExpression?_eq_some hinner]
      simp

theorem parseExpression_eq_ok {source : String} {base : Nat} {p : ParsedExpr}
    (h : parseExpression source base = .ok p) :
    ∃ body last, Token.scan source = .ok (body ++ [last]) ∧
      Token.Spelled 0 source.toList body ∧ p.source = source ∧ p.base = base ∧ p.root.Written body := by
  rcases hscan : Token.scan source with e | tokens
  · rw [parseExpression, hscan] at h
    cases h
  · obtain ⟨root, hroot, rfl⟩ := (parseExpression_of_scan base hscan p).mp h
    obtain ⟨body, rfl, hspelled⟩ := Token.spelled_of_scanFrom (Nat.lt_succ_self _) hscan
    obtain ⟨body', span, hbody', hkinds⟩ := Token.scanFrom_eof hscan
    obtain ⟨rfl, -⟩ := List.append_inj' hbody' rfl
    exact ⟨body, _, rfl, hspelled, rfl, rfl, Parser.expression_written hkinds hroot⟩

/-- Where the text of an expression stands in its attribute, and how it is written. -/
theorem parseAttribute_eq_expression {text : String} {p : ParsedExpr}
    (h : parseAttribute text = .ok (.expression p)) :
    ∃ lead trail body last, Encloses text lead p.source.toList trail ∧
      p.base = Text.byteSize lead + 2 ∧ Token.scan p.source = .ok (body ++ [last]) ∧
      Token.Spelled 0 p.source.toList body ∧ p.root.Written body := by
  rcases parseAttribute_cases text with ⟨plain, hplain⟩ | ⟨lead, inner, trail, htext, hparse⟩
  · rw [h] at hplain
    cases hplain
  · rw [hparse] at h
    obtain ⟨q, hq, hsame⟩ := map_eq_ok h
    cases hsame
    obtain ⟨body, last, hscan, hspelled, hsource, hbase, hwritten⟩ := parseExpression_eq_ok hq
    rw [← hsource] at hscan hspelled
    rw [← String.toList_ofList (l := inner), ← hsource] at htext
    exact ⟨lead, trail, body, last, htext, hbase, hscan, hspelled, hwritten⟩

namespace Encloses

variable {text : String} {lead inner trail front marked back : List Char}

/-- The marks of an expression take a byte for each of their characters. -/
theorem byteSize_eq (h : Encloses text lead inner trail) :
    Text.byteSize text.toList = Text.byteSize lead + 2 + Text.byteSize inner + 1 + Text.byteSize trail := by
  have hmarks : '$'.utf8Size = 1 ∧ '\x7b'.utf8Size = 1 ∧ '\x7d'.utf8Size = 1 := by decide
  rw [h.split, Text.byteSize_append, Text.byteSize, Text.byteSize, Text.byteSize_append, Text.byteSize,
    hmarks.1, hmarks.2.1, hmarks.2.2]
  omega

/-- Marking something in the text of an expression marks it in the attribute. -/
theorem shift_marked (h : Encloses text lead inner trail) (hinner : inner = front ++ (marked ++ back))
    (hsize : Text.byteSize text.toList ≤ Span.maxOffset) :
    (Span.ofRange (Text.byteSize front) (Text.byteSize front + Text.byteSize marked)).shift
        (Text.byteSize lead + 2) =
      .ofRange (Text.byteSize lead + 2 + Text.byteSize front)
        (Text.byteSize lead + 2 + Text.byteSize front + Text.byteSize marked) := by
  rw [h.byteSize_eq, hinner, Text.byteSize_append, Text.byteSize_append] at hsize
  rw [Span.shift_ofRange (by omega) (Nat.le_add_right _ _), Nat.add_assoc _ (Text.byteSize front)]

theorem slice?_shift (h : Encloses text lead inner trail) (hinner : inner = front ++ (marked ++ back))
    (hsize : Text.byteSize text.toList ≤ Span.maxOffset) :
    ((Span.ofRange (Text.byteSize front) (Text.byteSize front + Text.byteSize marked)).shift
      (Text.byteSize lead + 2)).slice? text = some (String.ofList marked) := by
  have hsplit : text.toList =
      (lead ++ '$' :: '\x7b' :: front) ++ (marked ++ (back ++ '\x7d' :: trail)) := by
    rw [h.split, hinner]
    simp
  have hfront : Text.byteSize (lead ++ '$' :: '\x7b' :: front) =
      Text.byteSize lead + 2 + Text.byteSize front := by
    have hmarks : '$'.utf8Size = 1 ∧ '\x7b'.utf8Size = 1 := by decide
    rw [Text.byteSize_append, Text.byteSize, Text.byteSize, hmarks.1, hmarks.2]
    omega
  rw [h.shift_marked hinner hsize, ← hfront]
  exact Span.slice?_of_le hsplit hsize

end Encloses

/-- Blanks in front of an expression only move it. -/
theorem parseAttribute_behind {blanks : List Char} (hblanks : ∀ c ∈ blanks, Text.isBlank c)
    (inner : List Char) :
    parseAttribute (String.ofList (blanks ++ '$' :: '\x7b' :: (inner ++ ['\x7d']))) =
      (parseExpression (String.ofList inner) (Text.byteSize blanks + 2)).map .expression := by
  have hstart : Text.trimStart (blanks ++ '$' :: '\x7b' :: (inner ++ ['\x7d'])) =
      '$' :: '\x7b' :: (inner ++ ['\x7d']) :=
    Lexeme.dropWhile_append_of_stops hblanks (by rintro _ ⟨⟩; rfl)
  have hend : Text.trimEnd ('$' :: '\x7b' :: (inner ++ ['\x7d'])) =
      '$' :: '\x7b' :: (inner ++ ['\x7d']) := by
    have hreverse : ('$' :: '\x7b' :: (inner ++ ['\x7d'])).reverse =
        '\x7d' :: (inner.reverse ++ ['\x7b', '$']) := by simp
    rw [Text.trimEnd, hreverse, List.dropWhile_cons_of_neg (by decide), ← hreverse, List.reverse_reverse]
  have hunwrap : unwrapExpression? ('$' :: '\x7b' :: (inner ++ ['\x7d'])) = some inner := by
    rw [unwrapExpression?, List.getLast?_concat, if_pos rfl, List.dropLast_concat]
  have hplain : ∀ rest, blanks ++ '$' :: '\x7b' :: (inner ++ ['\x7d']) ≠ '\\' :: '$' :: rest := by
    rintro rest heq
    cases blanks with
    | nil => cases heq
    | cons c blanks =>
      obtain ⟨rfl, -⟩ := List.cons.inj heq
      exact absurd (hblanks '\\' List.mem_cons_self) (by decide)
  unfold parseAttribute
  rw [String.toList_ofList]
  split
  · next rest heq => exact absurd heq (hplain rest)
  · dsimp only
    rw [hstart, hend, hunwrap, Text.byteSize_append, Nat.add_sub_cancel]

/-- What is written with the tokens of a sentence reads as that sentence. -/
theorem parseExpression_of_spelled {marked : List Char} {ts : List Token} {phrase : Phrase}
    (h : Token.Spelled 0 marked ts) (hs : Grammar.Sentence (ts.map Token.kind) phrase) (base : Nat) :
    ∃ q, parseExpression (String.ofList marked) base = .ok q ∧
      Expr.Stands q.entries (q.entries.length - 1) phrase := by
  have hscan := Token.scanFrom_of_spelled h (Nat.lt_succ_self _)
  rw [← String.toList_ofList (l := marked)] at hscan
  obtain ⟨root, rfl, hroot⟩ := Parser.expression_complete _ hs
  refine ⟨⟨String.ofList marked, root, base⟩, ?_, ParsedExpr.stands_root _⟩
  exact (parseExpression_of_scan base hscan _).mpr ⟨root, hroot, rfl⟩

namespace ParsedExpr

open LiveBinding.Expr

/-- The span of every node of an expression is the text of that node: the same text in the attribute,
from the start of a token to the end of one, with the operands inside it one behind the other, and it
reads as the node by itself. Offsets reach as far as 32 bits do. -/
theorem span_names_node {text : String} {p : ParsedExpr}
    (h : parseAttribute text = .ok (.expression p))
    (hsize : Text.byteSize text.toList ≤ Span.maxOffset) {n : Nat} (hn : p.Reachable n) :
    ∃ entry, p.entries[n]? = some entry ∧
      (p.attributeSpan entry.span).slice? text = some (p.text entry.span) ∧
      p.text entry.span ≠ "" ∧
      (∃ tokens, Token.scan p.source = .ok tokens ∧ ∃ first ∈ tokens, ∃ last ∈ tokens,
        entry.span = ⟨first.span.start, last.span.stop⟩) ∧
      (∃ spans, List.Forall₂ (fun m s ↦ (p.entries[m]?).map Entry.span = some s)
          entry.shape.children spans ∧
        (spans.Pairwise fun s t ↦ s.stop ≤ t.start) ∧
        ∀ s ∈ spans, entry.span.start ≤ s.start ∧ s.stop ≤ entry.span.stop) ∧
      ∀ base, ∃ q, parseExpression (p.text entry.span) base = .ok q ∧
        ∃ phrase, Stands p.entries n phrase ∧ Stands q.entries (q.entries.length - 1) phrase := by
  obtain ⟨lead, trail, body, last, htext, hbase, hscan, hspelled, hwritten⟩ :=
    parseAttribute_eq_expression h
  obtain ⟨e, before, used, after, hlies, rfl, hused⟩ := hn.written hwritten
  obtain ⟨entry, hentry⟩ := hlies.exists_entry
  obtain ⟨hspan, hstands, hchildren⟩ := hlies.found hentry
  have hordered := hspelled.inOrder
  have hspans := hused.spans hordered.right.left
  obtain ⟨front, marked, back, hsource, hne, hmarked, hagain⟩ := hspelled.cutOut hspans
  have hbytes : Text.byteSize p.source.toList ≤ Span.maxOffset := by
    rw [htext.byteSize_eq] at hsize
    omega
  rw [Nat.zero_add] at hmarked
  rw [← hspan] at hmarked hspans
  have hslice : p.text entry.span = String.ofList marked := by
    rw [ParsedExpr.text, hmarked, Span.slice?_of_le hsource hbytes, Option.getD_some]
  refine ⟨entry, hentry, ?_, ?_, ⟨_, hscan, ?_⟩, ⟨e.children.map span, ?_, ?_, ?_⟩, fun base ↦ ?_⟩
  · rw [hslice, attributeSpan, hmarked, hbase]
    exact htext.slice?_shift hsource hsize
  · rw [hslice]
    exact fun hempty ↦ hne (String.ofList_eq_empty_iff.mp hempty)
  · obtain ⟨first, last', hfirst, hlast, heq⟩ := hspans
    have hmem := List.mem_of_mem_head? (Option.mem_def.mpr hfirst)
    have hmem' := List.mem_of_getLast? hlast
    exact ⟨first, by simp [hmem], last', by simp [hmem'], heq⟩
  · exact List.forall₂_map_right_iff.mpr (hchildren.imp fun _ _ h ↦ h.span_eq)
  · exact hused.parts.pairwise hordered.right.left
  · intro s hs
    obtain ⟨c, hc, rfl⟩ := List.mem_map.mp hs
    obtain ⟨before', used', after', rfl, hused'⟩ := hused.parts.mem hc
    exact hused'.within hordered.right.left hspans
  · obtain ⟨ts, hts, hkinds⟩ := hagain 0
    have hsentence := hused.sentence
    rw [← hkinds] at hsentence
    obtain ⟨q, hq, hroot⟩ := parseExpression_of_spelled hts hsentence base
    rw [hslice]
    exact ⟨q, hq, e.phrase, hstands, hroot⟩

end ParsedExpr

namespace Sample

def groupedText : String := " ${ (a + b) * c.f(d) }"

def grouped : ParsedExpr :=
  match parseAttribute groupedText with
  | .ok (.expression p) => p
  | _ => ⟨"", .literal default .null, 0⟩

theorem parseAttribute_grouped : parseAttribute groupedText = .ok (.expression grouped) := by
  have hexpression : (match parseAttribute groupedText with
    | .ok (.expression _) => true
    | _ => false) = true := by decide +kernel
  split at hexpression
  · next p hp => rw [grouped, hp]
  · cases hexpression

/-- The operand in parentheses. -/
theorem reachable_grouped : grouped.Reachable 3 := by
  have hchildren : (grouped.entries[7]?).map (·.shape.children) = some [3, 6] := by decide +kernel
  obtain ⟨entry, hentry, hnames⟩ := Option.map_eq_some_iff.mp hchildren
  have hlength : grouped.entries.length - 1 = 7 := by decide +kernel
  refine .tail .refl ⟨entry, hlength ▸ hentry, ?_⟩
  rw [hnames]
  exact List.mem_cons_self

end Sample

open Sample in
theorem ParsedExpr.span_names_node_grouped :
    parseAttribute groupedText = .ok (.expression grouped) ∧
    Text.byteSize groupedText.toList ≤ Span.maxOffset ∧ grouped.Reachable 3 ∧
    ∃ entry, grouped.entries[3]? = some entry ∧
      (grouped.attributeSpan entry.span).slice? groupedText = some (grouped.text entry.span) ∧
      ∀ base, ∃ q, parseExpression (grouped.text entry.span) base = .ok q ∧
        ∃ phrase, Expr.Stands grouped.entries 3 phrase ∧
          Expr.Stands q.entries (q.entries.length - 1) phrase := by
  have hsize : Text.byteSize groupedText.toList ≤ Span.maxOffset := by decide
  obtain ⟨entry, hentry, hslice, -, -, -, hparse⟩ :=
    span_names_node parseAttribute_grouped hsize reachable_grouped
  exact ⟨parseAttribute_grouped, hsize, reachable_grouped, entry, hentry, hslice, hparse⟩

namespace Sample

/-- An expression behind so many blanks that no offset tells where it stands. -/
def farText (inner : String) : String :=
  String.ofList (List.replicate Span.maxOffset ' ' ++ '$' :: '\x7b' :: (inner.toList ++ ['\x7d']))

theorem isBlank_far : ∀ c ∈ List.replicate Span.maxOffset ' ', Text.isBlank c := by
  intro c hc
  rw [List.eq_of_mem_replicate hc]
  decide

theorem byteSize_far : Text.byteSize (List.replicate Span.maxOffset ' ') = Span.maxOffset := by
  rw [Text.byteSize_replicate, show ' '.utf8Size = 1 by decide, Nat.mul_one]

theorem parseAttribute_far (inner : String) : parseAttribute (farText inner) =
    (parseExpression inner (Span.maxOffset + 2)).map .expression := by
  have hparse := parseAttribute_behind isBlank_far inner.toList
  rwa [byteSize_far, String.ofList_toList] at hparse

end Sample

open Sample in
/-- The span of a node does not name the node if it is farther from the start than offsets reach. -/
theorem ParsedExpr.span_misses_far : ∃ p entry, parseAttribute (farText "a") = .ok (.expression p) ∧
    p.Reachable 0 ∧ p.entries[0]? = some entry ∧ p.text entry.span = "a" ∧
    (p.attributeSpan entry.span).slice? (farText "a") = some "" := by
  refine ⟨⟨"a", .ident ⟨0, 1⟩ "a", Span.maxOffset + 2⟩, ⟨.ident "a", ⟨0, 1⟩⟩, ?_, .refl, rfl, rfl, ?_⟩
  · rw [parseAttribute_far]
    rfl
  · have hsplit : (farText "a").toList = List.replicate Span.maxOffset ' ' ++
        ([] ++ '$' :: '\x7b' :: ("a".toList ++ ['\x7d'])) := String.toList_ofList ..
    have hslice := Text.slice?_append hsplit
    rw [byteSize_far] at hslice
    exact hslice

end LiveBinding
