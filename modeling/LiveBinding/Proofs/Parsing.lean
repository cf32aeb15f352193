import LiveBinding.Proofs.Arena
import LiveBinding.Proofs.Outcome
import LiveBinding.Proofs.Written

namespace LiveBinding

namespace Parser

open Grammar

variable {power : Nat} {tokens used rest : List Token} {e left receiver : Expr}

/-- No operator in front binds as tightly as `k`. -/
def Below (k : Nat) (rest : List Token) : Prop :=
  ∀ op span more, rest = ⟨.operator op, span⟩ :: more → op.power < k

theorem Below.mono {j k : Nat} (h : Below j rest) (hjk : j ≤ k) : Below k rest :=
  fun op span more hrest ↦ Nat.lt_of_lt_of_le (h op span more hrest) hjk

theorem below_six (rest : List Token) : Below 6 rest := by
  intro op span more _
  cases op <;> decide

theorem expect_eq_ok {kind : TokenKind} {expected : String} {span : Span}
    (h : expect kind expected tokens = .ok (span, rest)) : tokens = ⟨kind, span⟩ :: rest := by
  unfold expect at h
  split at h
  · split at h
    · next hkind =>
      cases h
      rw [← hkind]
    · cases h
  · cases h

mutual

theorem binary_sound : ∀ {fuel power : Nat} {tokens rest : List Token} {e : Expr}, power ≤ 6 →
    binary fuel power tokens = .ok (e, rest) →
    ∃ used, tokens = used ++ rest ∧ Level power (used.map Token.kind) e.phrase ∧ e.Written used ∧
      Below power rest
  | 0, _, _, _, _, _, h => nomatch h
  | fuel + 1, power, tokens, rest, e, hpower, h => by
    unfold binary at h
    obtain ⟨⟨left, middle⟩, hleft, hnext⟩ := except_bind_ok h
    obtain ⟨used, rfl, hused, hwritten⟩ := unary_sound hleft
    obtain ⟨used', rfl, hlevel, hwritten', hbelow⟩ := operators_sound hpower (Nat.le_refl 6)
      (.operand hused) hwritten ((below_six _).mono (by decide)) hnext
    exact ⟨used ++ used', (List.append_assoc ..).symm, hlevel, hwritten', hbelow⟩

/-- The operand so far is of level `k`, and no operator follows that would have to be part of it. -/
theorem operators_sound : ∀ {fuel power k : Nat} {before tokens rest : List Token} {left e : Expr},
    power ≤ k → k ≤ 6 → Level k (before.map Token.kind) left.phrase → left.Written before →
    Below (k + 1) tokens → operators fuel power left tokens = .ok (e, rest) →
    ∃ used, tokens = used ++ rest ∧ Level power ((before ++ used).map Token.kind) e.phrase ∧
      e.Written (before ++ used) ∧ Below power rest
  | 0, _, _, _, _, _, _, _, _, _, _, _, _, h => nomatch h
  | fuel + 1, power, k, before, tokens, rest, left, e, hpower, hk, hleft, hwritten, hbelow, h => by
    unfold operators at h
    split at h
    · next op span more =>
      split at h
      · next hloose =>
        cases h
        refine ⟨[], rfl, ?_, by rwa [List.append_nil], ?_⟩
        · simpa using hleft.mono hpower
        · intro op' span' more' heq
          cases heq
          exact hloose
      · next htight =>
        obtain ⟨⟨right, middle⟩, hright, hnext⟩ := except_bind_ok h
        have hop : op.power < k + 1 := hbelow op span more rfl
        have hmax : op.power < 6 := below_six _ op span more rfl
        obtain ⟨used, rfl, hused, hwritten', hmiddle⟩ := binary_sound (by omega) hright
        have hboth : Level op.power ((before ++ ([Token.mk (.operator op) span] ++ used)).map Token.kind)
            (Expr.binary (left.span.merge right.span) op left right).phrase := by
          simpa [Expr.phrase] using Level.repeated (mem_operators.mpr rfl) (hleft.mono (by omega)) hused
        have hnode := Expr.Written.mk hboth.sentence (.merge _ hwritten.hull hwritten'.hull)
          (.cons [] hwritten ((Expr.Parts.single hwritten').behind [⟨.operator op, span⟩]))
        obtain ⟨used', rfl, hlevel, hall, hlast⟩ :=
          operators_sound (by omega) (by omega) hboth hnode hmiddle hnext
        refine ⟨⟨.operator op, span⟩ :: (used ++ used'), by simp, ?_, ?_, hlast⟩
        · simpa using hlevel
        · simpa using hall
    · next hnone =>
      cases h
      refine ⟨[], rfl, ?_, by rwa [List.append_nil], fun op span more heq ↦
        (hnone op span more heq).elim⟩
      simpa using hleft.mono hpower

theorem unary_sound : ∀ {fuel : Nat} {tokens rest : List Token} {e : Expr},
    unary fuel tokens = .ok (e, rest) →
    ∃ used, tokens = used ++ rest ∧ Unary (used.map Token.kind) e.phrase ∧ e.Written used
  | 0, _, _, _, h => nomatch h
  | fuel + 1, tokens, rest, e, h => by
    unfold unary at h
    split at h
    · next start more =>
      obtain ⟨⟨operand, middle⟩, hoperand, hnext⟩ := except_bind_ok h
      obtain ⟨used, rfl, hused, hwritten⟩ := unary_sound hoperand
      cases hnext
      have hneg : Unary (.operator .sub :: used.map Token.kind) (.unary .neg operand.phrase) :=
        .neg hused
      exact ⟨⟨.operator .sub, start⟩ :: used, rfl, hneg, .mk hneg.sentence
        (.merge [] (.one ⟨_, start⟩) hwritten.hull) ((Expr.Parts.single hwritten).behind [_])⟩
    · next start more =>
      obtain ⟨⟨operand, middle⟩, hoperand, hnext⟩ := except_bind_ok h
      obtain ⟨used, rfl, hused, hwritten⟩ := unary_sound hoperand
      cases hnext
      have hnot : Unary (.bang :: used.map Token.kind) (.unary .not operand.phrase) := .not hused
      exact ⟨⟨.bang, start⟩ :: used, rfl, hnot, .mk hnot.sentence
        (.merge [] (.one ⟨_, start⟩) hwritten.hull) ((Expr.Parts.single hwritten).behind [_])⟩
    · obtain ⟨⟨receiver, middle⟩, hreceiver, hnext⟩ := except_bind_ok h
      obtain ⟨used, rfl, hused, hwritten⟩ := primary_sound hreceiver
      obtain ⟨used', rfl, hall, hwritten'⟩ := suffixes_sound (.primary hused) hwritten hnext
      exact ⟨used ++ used', (List.append_assoc ..).symm, .suffixed hall, hwritten'⟩

theorem suffixes_sound : ∀ {fuel : Nat} {before tokens rest : List Token} {receiver e : Expr},
    Suffixed (before.map Token.kind) receiver.phrase → receiver.Written before →
    suffixes fuel receiver tokens = .ok (e, rest) →
    ∃ used, tokens = used ++ rest ∧ Suffixed ((before ++ used).map Token.kind) e.phrase ∧
      e.Written (before ++ used)
  | 0, _, _, _, _, _, _, _, h => nomatch h
  | fuel + 1, before, tokens, rest, receiver, e, hbefore, hwritten, h => by
    unfold suffixes at h
    split at h
    · next dot name span paren more =>
      obtain ⟨⟨⟨args, stop⟩, middle⟩, hargs, hnext⟩ := except_bind_ok h
      obtain ⟨used, rfl, hused, hparts⟩ := arguments_sound hargs
      have hcall : Suffixed ((before ++ ([Token.mk .dot dot, ⟨.ident name, span⟩, ⟨.openParen, paren⟩] ++
          used ++ [Token.mk .closeParen stop])).map Token.kind)
          (Expr.call (receiver.span.merge stop) receiver name args).phrase := by
        have hphrase : Suffixed _ (.call receiver.phrase name (Expr.phrases args)) :=
          .call hbefore hused
        simpa [Expr.phrase] using hphrase
      have hnode := Expr.Written.mk hcall.sentence
        (.merge _ hwritten.hull (.one ⟨.closeParen, stop⟩))
        (.cons [] hwritten ((hparts.behind _).before _))
      obtain ⟨used', rfl, hall, hlast⟩ := suffixes_sound hcall hnode hnext
      refine ⟨⟨.dot, dot⟩ :: ⟨.ident name, span⟩ :: ⟨.openParen, paren⟩ ::
        (used ++ ⟨.closeParen, stop⟩ :: used'), by simp, ?_, ?_⟩
      · simpa using hall
      · simpa using hlast
    · next dot name span more _ =>
      have hfield : Suffixed ((before ++ ([Token.mk .dot dot] ++ [Token.mk (.ident name) span])).map Token.kind)
          (Expr.field (receiver.span.merge span) receiver name).phrase := by
        have hphrase : Suffixed _ (.field receiver.phrase name) := .field hbefore
        simpa [Expr.phrase] using hphrase
      have hnode := Expr.Written.mk hfield.sentence
        (.merge _ hwritten.hull (.one ⟨.ident name, span⟩)) (.cons [] hwritten (.nil _))
      obtain ⟨used, rfl, hall, hlast⟩ := suffixes_sound hfield hnode h
      refine ⟨⟨.dot, dot⟩ :: ⟨.ident name, span⟩ :: used, rfl, ?_, ?_⟩
      · simpa using hall
      · simpa using hlast
    · cases h
    · next bracket more =>
      obtain ⟨⟨position, middle⟩, hposition, hnext⟩ := except_bind_ok h
      obtain ⟨⟨stop, middle'⟩, hstop, hlast⟩ := except_bind_ok hnext
      obtain ⟨used, rfl, hused, hwritten', -⟩ := binary_sound (Nat.zero_le 6) hposition
      obtain rfl := expect_eq_ok hstop
      have hindex : Suffixed ((before ++ ([Token.mk .openBracket bracket] ++ used ++
          [Token.mk .closeBracket stop])).map Token.kind)
          (Expr.index (receiver.span.merge stop) receiver position).phrase := by
        simpa [Expr.phrase] using Suffixed.index hbefore hused
      have hnode := Expr.Written.mk hindex.sentence
        (.merge _ hwritten.hull (.one ⟨.closeBracket, stop⟩))
        (.cons [] hwritten (((Expr.Parts.single hwritten').behind _).before _))
      obtain ⟨used', rfl, hall, hend⟩ := suffixes_sound hindex hnode hlast
      refine ⟨⟨.openBracket, bracket⟩ :: (used ++ ⟨.closeBracket, stop⟩ :: used'), by simp, ?_, ?_⟩
      · simpa using hall
      · simpa using hend
    · cases h
      exact ⟨[], rfl, by simpa using hbefore, by rwa [List.append_nil]⟩

theorem arguments_sound : ∀ {fuel : Nat} {tokens rest : List Token} {args : List Expr} {stop : Span},
    arguments fuel tokens = .ok ((args, stop), rest) →
    ∃ used, tokens = used ++ ⟨.closeParen, stop⟩ :: rest ∧
      Arguments (.openParen :: (used.map Token.kind ++ [.closeParen])) (Expr.phrases args) ∧
      Expr.Parts used args
  | 0, _, _, _, _, h => nomatch h
  | fuel + 1, tokens, rest, args, stop, h => by
    unfold arguments at h
    split at h
    · next span more =>
      cases h
      exact ⟨[], rfl, .none, .nil _⟩
    · obtain ⟨used, rfl, hused, hparts⟩ := moreArguments_sound h
      exact ⟨used, rfl, .some hused, hparts⟩

theorem moreArguments_sound : ∀ {fuel : Nat} {tokens rest : List Token} {args : List Expr}
    {stop : Span}, moreArguments fuel tokens = .ok ((args, stop), rest) →
    ∃ used, tokens = used ++ ⟨.closeParen, stop⟩ :: rest ∧
      Items (used.map Token.kind) (Expr.phrases args) ∧ Expr.Parts used args
  | 0, _, _, _, _, h => nomatch h
  | fuel + 1, tokens, rest, args, stop, h => by
    unfold moreArguments at h
    obtain ⟨⟨arg, middle⟩, harg, hnext⟩ := except_bind_ok h
    obtain ⟨used, rfl, hused, hwritten, -⟩ := binary_sound (Nat.zero_le 6) harg
    dsimp only at hnext
    split at hnext
    · next comma more =>
      obtain ⟨⟨⟨args', stop'⟩, middle'⟩, hargs, hlast⟩ := except_bind_ok hnext
      obtain ⟨used', rfl, hused', hparts⟩ := moreArguments_sound hargs
      cases hlast
      refine ⟨used ++ ⟨.comma, comma⟩ :: used', by simp, ?_, .cons [] hwritten (hparts.behind [_])⟩
      simpa [Expr.phrases] using Items.more hused hused'
    · obtain ⟨⟨stop', middle'⟩, hstop, hlast⟩ := except_bind_ok hnext
      obtain rfl := expect_eq_ok hstop
      cases hlast
      exact ⟨used, rfl, .last hused, .single hwritten⟩

theorem primary_sound : ∀ {fuel : Nat} {tokens rest : List Token} {e : Expr},
    primary fuel tokens = .ok (e, rest) →
    ∃ used, tokens = used ++ rest ∧ Primary (used.map Token.kind) e.phrase ∧ e.Written used
  | 0, _, _, _, h => nomatch h
  | fuel + 1, tokens, rest, e, h => by
    unfold primary at h
    split at h
    · next value span more =>
      cases h
      exact ⟨[⟨.literal value, span⟩], rfl, .literal,
        .mk (Primary.sentence .literal) (.one ⟨_, span⟩) (.nil _)⟩
    · next name span paren more =>
      obtain ⟨⟨⟨args, stop⟩, middle⟩, hargs, hnext⟩ := except_bind_ok h
      obtain ⟨used, rfl, hused, hparts⟩ := arguments_sound hargs
      cases hnext
      have hconstruct : Primary (([Token.mk (.ident name) span] ++ (Token.mk .openParen paren :: used ++
          [Token.mk .closeParen stop])).map Token.kind)
          (Expr.construct (span.merge stop) name args).phrase := by
        have hphrase : Primary _ (.construct name (Expr.phrases args)) := .construct hused
        simpa [Expr.phrase] using hphrase
      refine ⟨_, by simp, hconstruct, .mk hconstruct.sentence
        (.merge _ (.one ⟨.ident name, span⟩) (.one ⟨.closeParen, stop⟩)) ?_⟩
      exact (hparts.behind [_, _]).before [_]
    · next name span more _ =>
      cases h
      exact ⟨[⟨.ident name, span⟩], rfl, .ident,
        .mk (Primary.sentence .ident) (.one ⟨_, span⟩) (.nil _)⟩
    · next start more =>
      obtain ⟨⟨inner, middle⟩, hinner, hnext⟩ := except_bind_ok h
      obtain ⟨⟨stop, middle'⟩, hstop, hlast⟩ := except_bind_ok hnext
      obtain ⟨used, rfl, hused, hwritten, -⟩ := binary_sound (Nat.zero_le 6) hinner
      obtain rfl := expect_eq_ok hstop
      cases hlast
      have hparen : Primary (([Token.mk .openParen start] ++
          (used ++ [Token.mk .closeParen stop])).map Token.kind)
          (Expr.paren (start.merge stop) inner).phrase := by
        simpa [Expr.phrase] using Primary.paren hused
      refine ⟨_, by simp, hparen, .mk hparen.sentence
        (.merge _ (.one ⟨.openParen, start⟩) (.one ⟨.closeParen, stop⟩)) ?_⟩
      exact (hwritten.parts.before [_]).behind [_]
    · cases h

end

/-- What follows cannot be part of an expression of level `k`. -/
def Ends (k : Nat) : List Token → Prop
  | ⟨.operator op, _⟩ :: _ => op.power ≤ k
  | ⟨.dot, _⟩ :: _ | ⟨.openBracket, _⟩ :: _ | ⟨.openParen, _⟩ :: _ => False
  | _ => True

/-- What follows is not the start of arguments. -/
def TakesNoArgs : List Token → Prop
  | ⟨.openParen, _⟩ :: _ => False
  | _ => True

/-- What follows ends an expression of any level. -/
def Closes (rest : List Token) : Prop :=
  ∃ kind span more, rest = ⟨kind, span⟩ :: more ∧
    (kind = .closeParen ∨ kind = .closeBracket ∨ kind = .comma ∨ kind = .eof)

theorem Ends.mono {j k : Nat} (h : Ends j rest) (hjk : j ≤ k) : Ends k rest := by
  unfold Ends at h ⊢
  split at h
  · exact Nat.le_trans h hjk
  · exact h
  · exact h
  · exact h
  · trivial

theorem Ends.takesNoArgs {k : Nat} (h : Ends k rest) : TakesNoArgs rest := by
  unfold TakesNoArgs
  split
  · exact h
  · trivial

theorem Closes.ends {k : Nat} (h : Closes rest) : Ends k rest := by
  obtain ⟨kind, span, more, rfl, rfl | rfl | rfl | rfl⟩ := h
  all_goals exact trivial

theorem operators_of_closes {fuel : Nat} (h : Closes rest) :
    operators (fuel + 1) power e rest = .ok (e, rest) := by
  obtain ⟨kind, span, more, rfl, rfl | rfl | rfl | rfl⟩ := h
  all_goals simp [operators]

theorem operators_of_ends {fuel k : Nat} (h : Ends k rest) (hk : k < power) :
    operators (fuel + 1) power e rest = .ok (e, rest) := by
  unfold operators
  split
  · next op span more =>
    have hop : op.power ≤ k := h
    rw [if_pos (by omega)]
  · rfl

theorem suffixes_of_ends {fuel k : Nat} (h : Ends k rest) :
    suffixes (fuel + 1) receiver rest = .ok (receiver, rest) := by
  unfold suffixes
  split
  · exact h.elim
  · exact h.elim
  · exact h.elim
  · exact h.elim
  · rfl

theorem suffixes_field {fuel : Nat} {name : String} {dot span : Span} (h : TakesNoArgs rest) :
    suffixes (fuel + 1) receiver (⟨.dot, dot⟩ :: ⟨.ident name, span⟩ :: rest) =
      suffixes fuel (.field (receiver.span.merge span) receiver name) rest := by
  conv_lhs => unfold suffixes
  split
  · next heq =>
    cases heq
    exact h.elim
  · next heq =>
    cases heq
    rfl
  · next hident heq =>
    cases heq
    exact (hident _ _ _ rfl).elim
  · next heq => cases heq
  · next hdot _ => exact (hdot _ _ rfl).elim

theorem primary_ident {fuel : Nat} {name : String} {span : Span} (h : TakesNoArgs rest) :
    primary (fuel + 1) (⟨.ident name, span⟩ :: rest) = .ok (.ident span name, rest) := by
  unfold primary
  split
  · next heq => cases heq
  · next heq =>
    cases heq
    exact h.elim
  · next heq =>
    cases heq
    rfl
  · next heq => cases heq
  · next hident _ => exact (hident _ _ _ rfl).elim

theorem unary_of_starts {fuel : Nat} {t : Token} (h : startsPrimary t.kind) :
    unary (fuel + 1) (t :: rest) = (do
      let (receiver, tokens) ← primary fuel (t :: rest)
      suffixes fuel receiver tokens) := by
  unfold unary
  split
  · next heq =>
    cases heq
    cases h
  · next heq =>
    cases heq
    cases h
  · rfl

theorem arguments_of_ne {fuel : Nat} {t : Token} (h : t.kind ≠ .closeParen) :
    arguments (fuel + 1) (t :: rest) = moreArguments fuel (t :: rest) := by
  unfold arguments
  split
  · next heq =>
    cases heq
    exact (h rfl).elim
  · rfl

/-- After the end of an expression no operator is read any more. -/
theorem binary_of_closes {fuel : Nat} {p : Phrase} (hrest : Closes rest)
    (h : ∃ e fuel', e.phrase = p ∧ 8 * rest.length + 1 ≤ fuel' ∧
      binary fuel power tokens = operators fuel' power e rest) :
    ∃ e, e.phrase = p ∧ binary fuel power tokens = .ok (e, rest) := by
  obtain ⟨e, fuel', he, hfuel', hbinary⟩ := h
  obtain ⟨fuel', rfl⟩ : ∃ n, fuel' = n + 1 := ⟨fuel' - 1, by omega⟩
  exact ⟨e, he, hbinary.trans (operators_of_closes hrest)⟩

mutual

/-- Reading an expression of level `k` at a threshold up to `k` comes to the point where operators
may follow it. -/
theorem binary_complete : ∀ {k power fuel : Nat} {ts : List TokenKind} {p : Phrase}
    {used rest : List Token}, Level k ts p → power ≤ k → used.map Token.kind = ts → Ends k rest →
    8 * (used.length + rest.length) + 4 ≤ fuel →
    ∃ e fuel', e.phrase = p ∧ 8 * rest.length + 1 ≤ fuel' ∧
      binary fuel power (used ++ rest) = operators fuel' power e rest
  | _, power, fuel, _, _, used, rest, .operand h, _, hused, hends, hfuel => by
    obtain ⟨fuel, rfl⟩ : ∃ n, fuel = n + 1 := ⟨fuel - 1, by omega⟩
    obtain ⟨e, he, hunary⟩ := unary_complete h hused hends (show _ ≤ fuel by omega)
    refine ⟨e, fuel, he, by omega, ?_⟩
    rw [binary, hunary]
    rfl
  | _, _, _, _, _, _, _, .single _ h, hpower, hused, hends, hfuel =>
    binary_complete h (Nat.le_succ_of_le hpower) hused (hends.mono (Nat.le_succ _)) hfuel
  | k, power, fuel, _, _, used, rest, .repeated hop hl hr, hpower, hused, hends, hfuel => by
    obtain ⟨before, after, rfl, hbefore, hafter⟩ := List.map_eq_append_iff.mp hused
    obtain ⟨⟨kind, span⟩, more, rfl, rfl, hmore⟩ := List.map_eq_cons_iff.mp hafter
    have hop := mem_operators.mp hop
    simp only [List.length_append, List.length_cons] at hfuel
    obtain ⟨l, fuel', rfl, hfuel', hleft⟩ :=
      binary_complete hl hpower hbefore
        (show Ends k (⟨.operator _, span⟩ :: (more ++ rest)) from Nat.le_of_eq hop)
        (show _ ≤ fuel by simp only [List.length_cons, List.length_append]; omega)
    simp only [List.length_append, List.length_cons] at hfuel'
    obtain ⟨fuel', rfl⟩ : ∃ n, fuel' = n + 1 := ⟨fuel' - 1, by omega⟩
    obtain ⟨r, fuel'', rfl, hfuel'', hright⟩ := binary_complete hr (Nat.le_refl _) hmore
      (hends.mono (Nat.le_succ k)) (show _ ≤ fuel' by omega)
    obtain ⟨fuel'', rfl⟩ : ∃ n, fuel'' = n + 1 := ⟨fuel'' - 1, by omega⟩
    refine ⟨.binary (l.span.merge r.span) _ l r, fuel', rfl, by omega, ?_⟩
    rw [List.append_assoc, List.cons_append, hleft, operators, if_neg (by omega), hop, hright,
      operators_of_ends hends (Nat.lt_succ_self k)]
    rfl

theorem unary_complete : ∀ {fuel : Nat} {ts : List TokenKind} {p : Phrase}
    {used rest : List Token}, Unary ts p → used.map Token.kind = ts → Ends 6 rest →
    8 * (used.length + rest.length) + 2 ≤ fuel →
    ∃ e, e.phrase = p ∧ unary fuel (used ++ rest) = .ok (e, rest)
  | fuel, _, _, used, rest, .neg h, hused, hends, hfuel => by
    obtain ⟨⟨kind, start⟩, more, rfl, rfl, hmore⟩ := List.map_eq_cons_iff.mp hused
    simp only [List.length_cons] at hfuel
    obtain ⟨fuel, rfl⟩ : ∃ n, fuel = n + 1 := ⟨fuel - 1, by omega⟩
    obtain ⟨e, rfl, hoperand⟩ := unary_complete h hmore hends (show _ ≤ fuel by omega)
    refine ⟨.unary (start.merge e.span) .neg e, rfl, ?_⟩
    rw [List.cons_append, unary, hoperand]
    rfl
  | fuel, _, _, used, rest, .not h, hused, hends, hfuel => by
    obtain ⟨⟨kind, start⟩, more, rfl, rfl, hmore⟩ := List.map_eq_cons_iff.mp hused
    simp only [List.length_cons] at hfuel
    obtain ⟨fuel, rfl⟩ : ∃ n, fuel = n + 1 := ⟨fuel - 1, by omega⟩
    obtain ⟨e, rfl, hoperand⟩ := unary_complete h hmore hends (show _ ≤ fuel by omega)
    refine ⟨.unary (start.merge e.span) .not e, rfl, ?_⟩
    rw [List.cons_append, unary, hoperand]
    rfl
  | fuel, _, _, used, rest, .suffixed h, hused, hends, hfuel => by
    obtain ⟨fuel, rfl⟩ : ∃ n, fuel = n + 1 := ⟨fuel - 1, by omega⟩
    obtain ⟨e, fuel', he, hfuel', hsuffixed⟩ :=
      suffixed_complete h hused hends.takesNoArgs (show _ ≤ fuel by omega)
    obtain ⟨fuel', rfl⟩ : ∃ n, fuel' = n + 1 := ⟨fuel' - 1, by omega⟩
    obtain ⟨t, more, hts, ht⟩ := h.starts
    obtain ⟨token, more', rfl, rfl, -⟩ := List.map_eq_cons_iff.mp (hused.trans hts)
    refine ⟨e, he, ?_⟩
    rw [List.cons_append] at hsuffixed ⊢
    rw [unary_of_starts ht, ← suffixes_of_ends hends]
    exact hsuffixed

/-- Reading a primary expression with what comes after it comes to the point where more may come. -/
theorem suffixed_complete : ∀ {fuel : Nat} {ts : List TokenKind} {p : Phrase}
    {used rest : List Token}, Suffixed ts p → used.map Token.kind = ts → TakesNoArgs rest →
    8 * (used.length + rest.length) + 1 ≤ fuel →
    ∃ e fuel', e.phrase = p ∧ 8 * rest.length + 1 ≤ fuel' ∧
      (do
        let (receiver, tokens) ← primary fuel (used ++ rest)
        suffixes fuel receiver tokens) = suffixes fuel' e rest
  | fuel, _, _, used, rest, .primary h, hused, hrest, hfuel => by
    obtain ⟨e, he, hprimary⟩ := primary_complete h hused hrest (show _ ≤ fuel by omega)
    refine ⟨e, fuel, he, by omega, ?_⟩
    rw [hprimary]
    rfl
  | fuel, _, _, used, rest, .field h, hused, hrest, hfuel => by
    obtain ⟨before, after, rfl, hbefore, hafter⟩ := List.map_eq_append_iff.mp hused
    obtain ⟨⟨kind, dot⟩, after', rfl, rfl, hafter'⟩ := List.map_eq_cons_iff.mp hafter
    obtain ⟨⟨kind', span⟩, after'', rfl, rfl, hafter''⟩ := List.map_eq_cons_iff.mp hafter'
    obtain rfl := List.map_eq_nil_iff.mp hafter''
    simp only [List.length_append, List.length_cons, List.length_nil] at hfuel
    obtain ⟨receiver, fuel', rfl, hfuel', hreceiver⟩ :=
      suffixed_complete h hbefore
        (show TakesNoArgs (⟨.dot, dot⟩ :: ⟨.ident _, span⟩ :: rest) from trivial)
        (show _ ≤ fuel by simp only [List.length_cons]; omega)
    simp only [List.length_cons] at hfuel'
    obtain ⟨fuel', rfl⟩ : ∃ n, fuel' = n + 1 := ⟨fuel' - 1, by omega⟩
    refine ⟨.field (receiver.span.merge span) receiver _, fuel', rfl, by omega, ?_⟩
    rw [List.append_assoc]
    exact hreceiver.trans (suffixes_field hrest)
  | fuel, _, _, used, rest, .call h hargs, hused, hrest, hfuel => by
    obtain ⟨before, after, rfl, hbefore, hafter⟩ := List.map_eq_append_iff.mp hused
    obtain ⟨⟨kind, dot⟩, after', rfl, rfl, hafter'⟩ := List.map_eq_cons_iff.mp hafter
    obtain ⟨⟨kind', span⟩, after'', rfl, rfl, hafter''⟩ := List.map_eq_cons_iff.mp hafter'
    simp only [List.length_append, List.length_cons] at hfuel
    obtain ⟨receiver, fuel', rfl, hfuel', hreceiver⟩ :=
      suffixed_complete h hbefore
        (show TakesNoArgs (⟨.dot, dot⟩ :: ⟨.ident _, span⟩ :: (after'' ++ rest)) from trivial)
        (show _ ≤ fuel by simp only [List.length_cons, List.length_append]; omega)
    simp only [List.length_cons, List.length_append] at hfuel'
    obtain ⟨fuel', rfl⟩ : ∃ n, fuel' = n + 1 := ⟨fuel' - 1, by omega⟩
    obtain ⟨paren, more, args, stop, rfl, rfl, harguments⟩ :=
      arguments_complete rest hargs hafter'' (show _ ≤ fuel' by omega)
    refine ⟨.call (receiver.span.merge stop) receiver _ args, fuel', rfl, by omega, ?_⟩
    rw [List.append_assoc]
    refine hreceiver.trans ?_
    rw [List.cons_append, suffixes, harguments]
    rfl
  | fuel, _, _, used, rest, .index h hindex, hused, hrest, hfuel => by
    obtain ⟨before, after, rfl, hbefore, hafter⟩ := List.map_eq_append_iff.mp hused
    obtain ⟨⟨kind, bracket⟩, after', rfl, rfl, hafter'⟩ := List.map_eq_cons_iff.mp hafter
    obtain ⟨inner, last, rfl, hinner, hlast⟩ := List.map_eq_append_iff.mp hafter'
    obtain ⟨⟨kind', stop⟩, last', rfl, rfl, hlast'⟩ := List.map_eq_cons_iff.mp hlast
    obtain rfl := List.map_eq_nil_iff.mp hlast'
    simp only [List.length_append, List.length_cons, List.length_nil] at hfuel
    obtain ⟨receiver, fuel', rfl, hfuel', hreceiver⟩ :=
      suffixed_complete h hbefore
        (show TakesNoArgs (⟨.openBracket, bracket⟩ :: (inner ++ ⟨.closeBracket, stop⟩ :: rest)) from
          trivial)
        (show _ ≤ fuel by simp only [List.length_cons, List.length_append]; omega)
    simp only [List.length_cons, List.length_append] at hfuel'
    obtain ⟨fuel', rfl⟩ : ∃ n, fuel' = n + 1 := ⟨fuel' - 1, by omega⟩
    have hcloses : Closes (⟨.closeBracket, stop⟩ :: rest) := ⟨_, stop, rest, rfl, by simp⟩
    obtain ⟨position, rfl, hposition⟩ := binary_of_closes hcloses
      (binary_complete hindex (Nat.zero_le 0) hinner hcloses.ends
        (show _ ≤ fuel' by simp only [List.length_cons]; omega))
    refine ⟨.index (receiver.span.merge stop) receiver position, fuel', rfl, by omega, ?_⟩
    simp only [List.append_assoc, List.cons_append, List.nil_append]
    refine hreceiver.trans ?_
    rw [suffixes, hposition]
    rfl

theorem primary_complete : ∀ {fuel : Nat} {ts : List TokenKind} {p : Phrase}
    {used rest : List Token}, Primary ts p → used.map Token.kind = ts → TakesNoArgs rest →
    8 * (used.length + rest.length) ≤ fuel →
    ∃ e, e.phrase = p ∧ primary fuel (used ++ rest) = .ok (e, rest)
  | fuel, _, _, used, rest, .literal, hused, _, hfuel => by
    obtain ⟨⟨kind, span⟩, more, rfl, rfl, hmore⟩ := List.map_eq_cons_iff.mp hused
    obtain rfl := List.map_eq_nil_iff.mp hmore
    simp only [List.length_cons] at hfuel
    obtain ⟨fuel, rfl⟩ : ∃ n, fuel = n + 1 := ⟨fuel - 1, by omega⟩
    exact ⟨_, rfl, rfl⟩
  | fuel, _, _, used, rest, .ident, hused, hrest, hfuel => by
    obtain ⟨⟨kind, span⟩, more, rfl, rfl, hmore⟩ := List.map_eq_cons_iff.mp hused
    obtain rfl := List.map_eq_nil_iff.mp hmore
    simp only [List.length_cons] at hfuel
    obtain ⟨fuel, rfl⟩ : ∃ n, fuel = n + 1 := ⟨fuel - 1, by omega⟩
    exact ⟨_, rfl, primary_ident hrest⟩
  | fuel, _, _, used, rest, .construct hargs, hused, _, hfuel => by
    obtain ⟨⟨kind, span⟩, more, rfl, rfl, hmore⟩ := List.map_eq_cons_iff.mp hused
    simp only [List.length_cons] at hfuel
    obtain ⟨fuel, rfl⟩ : ∃ n, fuel = n + 1 := ⟨fuel - 1, by omega⟩
    obtain ⟨paren, more', args, stop, rfl, rfl, harguments⟩ :=
      arguments_complete rest hargs hmore (show _ ≤ fuel by omega)
    refine ⟨.construct (span.merge stop) _ args, rfl, ?_⟩
    rw [List.cons_append, List.cons_append, primary, harguments]
    rfl
  | fuel, _, _, used, rest, .paren h, hused, _, hfuel => by
    obtain ⟨⟨kind, start⟩, more, rfl, rfl, hmore⟩ := List.map_eq_cons_iff.mp hused
    obtain ⟨inner, last, rfl, hinner, hlast⟩ := List.map_eq_append_iff.mp hmore
    obtain ⟨⟨kind', stop⟩, last', rfl, rfl, hlast'⟩ := List.map_eq_cons_iff.mp hlast
    obtain rfl := List.map_eq_nil_iff.mp hlast'
    simp only [List.length_append, List.length_cons, List.length_nil] at hfuel
    obtain ⟨fuel, rfl⟩ : ∃ n, fuel = n + 1 := ⟨fuel - 1, by omega⟩
    have hcloses : Closes (⟨.closeParen, stop⟩ :: rest) := ⟨_, stop, rest, rfl, by simp⟩
    obtain ⟨e, rfl, hbinary⟩ := binary_of_closes hcloses
      (binary_complete h (Nat.zero_le 0) hinner hcloses.ends
        (show _ ≤ fuel by simp only [List.length_cons]; omega))
    refine ⟨.paren (start.merge stop) e, rfl, ?_⟩
    simp only [List.append_assoc, List.cons_append, List.nil_append]
    rw [primary, hbinary]
    rfl

theorem arguments_complete : ∀ {fuel : Nat} {ts : List TokenKind} {ps : List Phrase}
    {used : List Token} (rest : List Token), Arguments ts ps → used.map Token.kind = ts →
    8 * (used.length + rest.length) ≤ fuel →
    ∃ paren more args stop, used = ⟨.openParen, paren⟩ :: more ∧ Expr.phrases args = ps ∧
      arguments fuel (more ++ rest) = .ok ((args, stop), rest)
  | fuel, _, _, used, rest, .none, hused, hfuel => by
    obtain ⟨⟨kind, paren⟩, more, rfl, rfl, hmore⟩ := List.map_eq_cons_iff.mp hused
    obtain ⟨⟨kind', stop⟩, more', rfl, rfl, hmore'⟩ := List.map_eq_cons_iff.mp hmore
    obtain rfl := List.map_eq_nil_iff.mp hmore'
    simp only [List.length_cons] at hfuel
    obtain ⟨fuel, rfl⟩ : ∃ n, fuel = n + 1 := ⟨fuel - 1, by omega⟩
    exact ⟨paren, _, [], stop, rfl, rfl, rfl⟩
  | fuel, _, _, used, rest, .some h, hused, hfuel => by
    obtain ⟨⟨kind, paren⟩, more, rfl, rfl, hmore⟩ := List.map_eq_cons_iff.mp hused
    obtain ⟨inner, last, rfl, hinner, hlast⟩ := List.map_eq_append_iff.mp hmore
    obtain ⟨⟨kind', stop⟩, last', rfl, rfl, hlast'⟩ := List.map_eq_cons_iff.mp hlast
    obtain rfl := List.map_eq_nil_iff.mp hlast'
    simp only [List.length_append, List.length_cons, List.length_nil] at hfuel
    obtain ⟨fuel, rfl⟩ : ∃ n, fuel = n + 1 := ⟨fuel - 1, by omega⟩
    obtain ⟨args, hargs, hitems⟩ :=
      moreArguments_complete rest stop h hinner (show _ ≤ fuel by omega)
    obtain ⟨t, ts, hts, ht⟩ := h.starts
    obtain ⟨token, inner', rfl, rfl, -⟩ := List.map_eq_cons_iff.mp (hinner.trans hts)
    refine ⟨paren, _, args, stop, rfl, hargs, ?_⟩
    simp only [List.append_assoc, List.cons_append, List.nil_append] at hitems ⊢
    rw [arguments_of_ne ht, hitems]

theorem moreArguments_complete : ∀ {fuel : Nat} {ts : List TokenKind} {ps : List Phrase}
    {used : List Token} (rest : List Token) (stop : Span), Items ts ps → used.map Token.kind = ts →
    8 * (used.length + (rest.length + 1)) + 5 ≤ fuel →
    ∃ args, Expr.phrases args = ps ∧
      moreArguments fuel (used ++ ⟨.closeParen, stop⟩ :: rest) = .ok ((args, stop), rest)
  | fuel, _, _, used, rest, stop, .last h, hused, hfuel => by
    obtain ⟨fuel, rfl⟩ : ∃ n, fuel = n + 1 := ⟨fuel - 1, by omega⟩
    have hcloses : Closes (⟨.closeParen, stop⟩ :: rest) := ⟨_, stop, rest, rfl, by simp⟩
    obtain ⟨e, rfl, hbinary⟩ := binary_of_closes hcloses
      (binary_complete h (Nat.zero_le 0) hused hcloses.ends
        (show _ ≤ fuel by simp only [List.length_cons]; omega))
    refine ⟨[e], rfl, ?_⟩
    rw [moreArguments, hbinary]
    rfl
  | fuel, _, _, used, rest, stop, .more h hmore, hused, hfuel => by
    obtain ⟨before, after, rfl, hbefore, hafter⟩ := List.map_eq_append_iff.mp hused
    obtain ⟨⟨kind, comma⟩, after', rfl, rfl, hafter'⟩ := List.map_eq_cons_iff.mp hafter
    simp only [List.length_append, List.length_cons] at hfuel
    obtain ⟨fuel, rfl⟩ : ∃ n, fuel = n + 1 := ⟨fuel - 1, by omega⟩
    have hcloses : Closes (⟨.comma, comma⟩ :: (after' ++ ⟨.closeParen, stop⟩ :: rest)) :=
      ⟨_, comma, _, rfl, by simp⟩
    obtain ⟨e, rfl, hbinary⟩ := binary_of_closes hcloses
      (binary_complete h (Nat.zero_le 0) hbefore hcloses.ends
        (show _ ≤ fuel by simp only [List.length_cons, List.length_append]; omega))
    obtain ⟨args, rfl, hitems⟩ :=
      moreArguments_complete rest stop hmore hafter' (show _ ≤ fuel by omega)
    refine ⟨e :: args, rfl, ?_⟩
    rw [List.append_assoc, List.cons_append, moreArguments, hbinary]
    simp only [bind, Except.bind]
    rw [hitems]

end

theorem expression_written {last : Token} {root : Expr} (hused : ∀ t ∈ used, t.kind ≠ .eof)
    (h : expression (used ++ [last]) = .ok root) : root.Written used := by
  obtain ⟨⟨e, rest⟩, hbinary, hnext⟩ := except_bind_ok h
  obtain ⟨before, htokens, -, hbefore, -⟩ := binary_sound (Nat.zero_le 6) hbinary
  dsimp only at hnext
  split at hnext
  · next span more =>
    cases hnext
    -- the first `eof` is the last token
    obtain ⟨extra, rfl, hextra⟩ | ⟨extra, rfl, hextra⟩ := List.append_eq_append_iff.mp htokens
    · match extra, hextra with
      | [], _ => rwa [List.append_nil] at hbefore
      | _ :: _, hextra => simp at hextra
    · match extra, hextra with
      | [], _ => rwa [List.append_nil]
      | t :: _, hextra =>
        cases hextra
        exact (hused ⟨.eof, span⟩ (by simp) rfl).elim
  · cases hnext

theorem expression_sound {last : Token} {root : Expr} (hused : ∀ t ∈ used, t.kind ≠ .eof)
    (h : expression (used ++ [last]) = .ok root) :
    Sentence (used.map Token.kind) root.phrase := (expression_written hused h).sentence

theorem expression_complete {p : Phrase} (span : Span) (h : Sentence (used.map Token.kind) p) :
    ∃ root, root.phrase = p ∧ expression (used ++ [⟨.eof, span⟩]) = .ok root := by
  have hcloses : Closes [⟨.eof, span⟩] := ⟨_, span, [], rfl, by simp⟩
  obtain ⟨root, hroot, hbinary⟩ := binary_of_closes hcloses
    (binary_complete h (Nat.zero_le 0) rfl hcloses.ends
      (show _ ≤ 8 * (used ++ [Token.mk .eof span]).length + 8 by simp only [List.length_append]; omega))
  refine ⟨root, hroot, ?_⟩
  rw [expression, hbinary]
  rfl

end Parser

theorem Lexeme.number_kind {cs : List Char} {lexeme : Lexeme} (h : number cs = .ok lexeme) :
    lexeme.kind ≠ .eof := by
  unfold number at h
  dsimp only at h
  split at h
  · cases h
    exact nofun
  · cases h
  · cases h

theorem Lexeme.string_kind {mark : Char} {cs : List Char} {lexeme : Lexeme}
    (h : string mark cs = .ok lexeme) : lexeme.kind ≠ .eof := by
  unfold string at h
  split at h
  · cases h
    exact nofun
  · cases h

theorem Lexeme.wordKind_ne (text : List Char) : wordKind text ≠ .eof := by
  unfold wordKind
  split
  all_goals exact nofun

theorem Lexeme.punctuation_kind {c : Char} {rest : List Char} {lexeme : Lexeme}
    (h : punctuation c rest = .ok lexeme) : lexeme.kind ≠ .eof := by
  unfold punctuation at h
  dsimp only at h
  split at h
  all_goals
    cases h
    try exact nofun

theorem Lexeme.first_kind {c : Char} {rest : List Char} {lexeme : Lexeme}
    (h : first c rest = .ok lexeme) : lexeme.kind ≠ .eof := by
  unfold first at h
  split at h
  · exact number_kind h
  split at h
  · exact string_kind h
  split at h
  · cases h
    exact wordKind_ne _
  · exact punctuation_kind h

theorem Token.scanFrom_eof {fuel pos : Nat} {cs : List Char} {tokens : List Token}
    (h : scanFrom fuel pos cs = .ok tokens) :
    ∃ body span, tokens = body ++ [⟨.eof, span⟩] ∧ ∀ t ∈ body, t.kind ≠ .eof := by
  induction fuel generalizing pos cs tokens with
  | zero =>
    cases h
    exact ⟨[], _, rfl, by simp⟩
  | succ fuel ih =>
    unfold scanFrom at h
    dsimp only at h
    split at h
    · cases h
      exact ⟨[], _, rfl, by simp⟩
    split at h
    · cases h
    · next lexeme hlexeme =>
      split at h
      · cases h
      · next tokens' htokens =>
        cases h
        obtain ⟨body, span, rfl, hbody⟩ := ih htokens
        refine ⟨_ :: body, span, rfl, ?_⟩
        intro t ht
        obtain rfl | ht := List.mem_cons.mp ht
        · exact Lexeme.first_kind hlexeme
        · exact hbody t ht

theorem parseExpression_of_scan {source : String} {tokens : List Token} (base : Nat)
    (hscan : Token.scan source = .ok tokens) (parsed : ParsedExpr) :
    parseExpression source base = .ok parsed ↔
      ∃ root, Parser.expression tokens = .ok root ∧ parsed = ⟨source, root, base⟩ := by
  unfold parseExpression
  rw [hscan]
  simp only [Except.bind]
  cases Parser.expression tokens with
  | error e => simp
  | ok root => simp [eq_comm]

/-- A text is an expression exactly if its tokens are a sentence of the grammar, and the tree that
the text is read as is the one that the grammar gives the sentence, which is the only one. -/
theorem parseExpression_iff_sentence {source : String} {tokens : List Token} (base : Nat)
    (hscan : Token.scan source = .ok tokens) :
    ∃ kinds, tokens.map Token.kind = kinds ++ [.eof] ∧ .eof ∉ kinds ∧
      ((∃ parsed, parseExpression source base = .ok parsed) ↔ ∃ p, Grammar.Sentence kinds p) ∧
      ∀ parsed, parseExpression source base = .ok parsed → ∀ p,
        (Grammar.Sentence kinds p ↔
          Expr.Stands parsed.entries (parsed.entries.length - 1) p) := by
  obtain ⟨body, span, rfl, hbody⟩ := Token.scanFrom_eof hscan
  refine ⟨body.map Token.kind, by simp, by simpa using hbody, ⟨?_, ?_⟩, ?_⟩
  · rintro ⟨parsed, hparsed⟩
    obtain ⟨root, hroot, -⟩ := (parseExpression_of_scan base hscan parsed).mp hparsed
    exact ⟨_, Parser.expression_sound hbody hroot⟩
  · rintro ⟨p, hp⟩
    obtain ⟨root, -, hroot⟩ := Parser.expression_complete span hp
    exact ⟨_, (parseExpression_of_scan base hscan _).mpr ⟨root, hroot, rfl⟩⟩
  · intro parsed hparsed p
    obtain ⟨root, hroot, rfl⟩ := (parseExpression_of_scan base hscan parsed).mp hparsed
    have hstands := ParsedExpr.stands_root ⟨source, root, base⟩
    constructor
    · intro hp
      obtain ⟨root', rfl, hroot'⟩ := Parser.expression_complete span hp
      cases hroot.symm.trans hroot'
      exact hstands
    · intro hp
      rw [hp.unique hstands]
      exact Parser.expression_sound hbody hroot

theorem parseExpression_iff_sentence_subtractions :
    ∃ tokens, Token.scan "a-b-1" = .ok tokens ∧
      ∃ kinds, tokens.map Token.kind = kinds ++ [.eof] ∧ .eof ∉ kinds ∧
        ((∃ parsed, parseExpression "a-b-1" 0 = .ok parsed) ↔ ∃ p, Grammar.Sentence kinds p) ∧
        ∀ parsed, parseExpression "a-b-1" 0 = .ok parsed → ∀ p,
          (Grammar.Sentence kinds p ↔
            Expr.Stands parsed.entries (parsed.entries.length - 1) p) := by
  have hscan : Token.scan "a-b-1" = .ok [⟨.ident "a", ⟨0, 1⟩⟩, ⟨.operator .sub, ⟨1, 2⟩⟩,
      ⟨.ident "b", ⟨2, 3⟩⟩, ⟨.operator .sub, ⟨3, 4⟩⟩, ⟨.literal (.int 1), ⟨4, 5⟩⟩,
      ⟨.eof, ⟨5, 5⟩⟩] := by
    decide +kernel
  exact ⟨_, hscan, parseExpression_iff_sentence 0 hscan⟩

end LiveBinding
