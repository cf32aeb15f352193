import LiveBinding.Proofs.Parsing

/-!
What a token is does not depend on what stands behind it: cut out of a text from the start of a token
to the end of another, the characters have the same tokens again.
-/

namespace LiveBinding

theorem Text.byteSize_replicate (n : Nat) (c : Char) :
    byteSize (List.replicate n c) = n * c.utf8Size := by
  induction n with
  | zero => rw [Nat.zero_mul]; rfl
  | succ n ih => rw [List.replicate_succ, byteSize, ih, Nat.succ_mul, Nat.add_comm]

theorem Text.byteSize_append (cs ds : List Char) :
    byteSize (cs ++ ds) = byteSize cs + byteSize ds := by
  induction cs with
  | nil => exact (Nat.zero_add _).symm
  | cons c cs ih => rw [List.cons_append, byteSize, byteSize, ih, Nat.add_assoc]

namespace Lexeme

/-- A text ends here for readers that go on while `p` holds. -/
def Stops (p : Char → Bool) (rest : List Char) : Prop := ∀ c ∈ rest.head?, p c = false

variable {p : Char → Bool} {text rest rest' : List Char}

theorem Stops.isPrefix (h : Stops p rest) (hp : rest' <+: rest) : Stops p rest' := by
  intro c hc
  obtain ⟨more, rfl⟩ := hp
  cases rest' with
  | nil => cases hc
  | cons d rest' => exact h c hc

theorem stops_dropWhile (cs : List Char) : Stops p (cs.dropWhile p) := by
  intro c hc
  have := List.head?_dropWhile_not p cs
  rw [Option.mem_def.mp hc] at this
  simpa using this

theorem takeWhile_append_of_stops (h : ∀ c ∈ text, p c) (hs : Stops p rest) :
    (text ++ rest).takeWhile p = text := by
  rw [List.takeWhile_append_of_pos h]
  cases rest with
  | nil => simp
  | cons c rest => simp [hs c rfl]

theorem dropWhile_append_of_stops (h : ∀ c ∈ text, p c) (hs : Stops p rest) :
    (text ++ rest).dropWhile p = rest := by
  rw [List.dropWhile_append_of_pos h]
  cases rest with
  | nil => rfl
  | cons c rest => simp [hs c rfl]

/-- A reader takes `text` off the front of some characters, and does so however few of those behind
it are there. -/
structure Takes {α : Type} (read : List Char → α × List Char) (cs : List Char) (a : α)
    (text rest : List Char) : Prop where
  split : cs = text ++ rest
  again : ∀ rest', rest' <+: rest → read (text ++ rest') = (a, rest')

theorem takes_takeWhile (p : Char → Bool) (cs : List Char) :
    Takes (fun cs ↦ (cs.takeWhile p, cs.dropWhile p)) cs (cs.takeWhile p) (cs.takeWhile p)
      (cs.dropWhile p) where
  split := List.takeWhile_append_dropWhile.symm
  again rest' hp := by
    have hall : ∀ c ∈ cs.takeWhile p, p c := List.all_eq_true.mp List.all_takeWhile
    have hstops := (stops_dropWhile cs).isPrefix hp
    rw [takeWhile_append_of_stops hall hstops, dropWhile_append_of_stops hall hstops]

/-- No digit stands in front. -/
theorem takeWhile_eq_nil (hs : Stops p rest) : rest.takeWhile p = [] := by
  cases rest with
  | nil => rfl
  | cons c rest => simp [hs c rfl]

theorem stops_of_takeWhile (h : (rest.takeWhile p).isEmpty) : Stops p rest := by
  cases rest with
  | nil => exact nofun
  | cons c rest =>
    rintro _ ⟨⟩
    simpa [List.takeWhile_cons] using h

theorem takes_splitFraction {cs fraction rest : List Char}
    (h : splitFraction cs = (fraction, rest)) : Takes splitFraction cs fraction fraction rest := by
  unfold splitFraction at h
  split at h
  · next cs =>
    dsimp only at h
    split at h
    · next hempty =>
      cases h
      refine ⟨rfl, fun rest' hp ↦ ?_⟩
      rcases rest' with _ | ⟨c, rest'⟩
      · rfl
      · rw [List.nil_append]
        obtain ⟨rfl, hrest⟩ := List.cons_prefix_cons.mp hp
        have hnone := takeWhile_eq_nil ((stops_of_takeWhile hempty).isPrefix hrest)
        simp [splitFraction, hnone]
    · next hdigits =>
      cases h
      have htakes := takes_takeWhile Char.isDigit cs
      refine ⟨congrArg ('.' :: ·) htakes.split, fun rest' hp ↦ ?_⟩
      obtain ⟨hdigits', hrest'⟩ := Prod.mk.inj (htakes.again rest' hp)
      simp [splitFraction, hdigits', hrest', hdigits]
  · next hdot =>
    cases h
    refine ⟨rfl, fun rest' hp ↦ ?_⟩
    obtain ⟨more, rfl⟩ := hp
    rw [List.nil_append]
    unfold splitFraction
    split
    · exact (hdot _ rfl).elim
    · rfl

/-- The sign of an exponent. -/
def splitSign (cs : List Char) : List Char × List Char :=
  match cs with
  | '+' :: after => (['+'], after)
  | '-' :: after => (['-'], after)
  | _ => ([], cs)

theorem splitExponent_cons (mark : Char) (cs : List Char) : splitExponent (mark :: cs) =
    if mark == 'e' || mark == 'E' then
      if ((splitSign cs).2.takeWhile Char.isDigit).isEmpty then ([], mark :: cs)
      else (mark :: (splitSign cs).1 ++ (splitSign cs).2.takeWhile Char.isDigit,
        (splitSign cs).2.dropWhile Char.isDigit)
    else ([], mark :: cs) := rfl

theorem splitSign_append (cs : List Char) : (splitSign cs).1 ++ (splitSign cs).2 = cs := by
  unfold splitSign
  split <;> rfl

/-- No digit follows the sign of a shorter text either. -/
theorem splitSign_stops {cs cs' : List Char} (h : Stops Char.isDigit (splitSign cs).2)
    (hp : cs' <+: cs) : Stops Char.isDigit (splitSign cs').2 := by
  rcases cs' with _ | ⟨c, cs'⟩
  · exact nofun
  obtain ⟨more, rfl⟩ := hp
  by_cases hplus : c = '+'
  · subst hplus
    exact h.isPrefix ⟨more, rfl⟩
  by_cases hminus : c = '-'
  · subst hminus
    exact h.isPrefix ⟨more, rfl⟩
  have hnone (ds : List Char) : splitSign (c :: ds) = ([], c :: ds) := by
    simp [splitSign, hplus, hminus]
  rw [List.cons_append, hnone] at h
  rw [hnone]
  exact h.isPrefix ⟨more, rfl⟩

/-- Digits behind a sign, or behind none. -/
theorem splitSign_digits (cs : List Char) {digits : List Char} (hd : ∀ c ∈ digits, c.isDigit)
    (hne : digits ≠ []) (rest : List Char) :
    splitSign ((splitSign cs).1 ++ (digits ++ rest)) = ((splitSign cs).1, digits ++ rest) := by
  obtain ⟨d, digits, rfl⟩ := List.exists_cons_of_ne_nil hne
  have hdigit := hd d List.mem_cons_self
  have hplus : d ≠ '+' := by rintro rfl; cases hdigit
  have hminus : d ≠ '-' := by rintro rfl; cases hdigit
  have hsign : (splitSign cs).1 = ['+'] ∨ (splitSign cs).1 = ['-'] ∨ (splitSign cs).1 = [] := by
    unfold splitSign
    split <;> simp
  rcases hsign with h | h | h
  · rw [h]
    rfl
  · rw [h]
    rfl
  · rw [h]
    simp [splitSign, hplus, hminus]

theorem takes_splitExponent {cs exponent rest : List Char}
    (h : splitExponent cs = (exponent, rest)) :
    Takes splitExponent cs exponent exponent rest := by
  rcases cs with _ | ⟨mark, cs⟩
  · cases h
    exact ⟨rfl, fun rest' hp ↦ by rw [List.prefix_nil.mp hp]; rfl⟩
  have hleft (hnone : ∀ cs', cs' <+: cs → splitExponent (mark :: cs') = ([], mark :: cs')) :
      Takes splitExponent (mark :: cs) [] [] (mark :: cs) := by
    refine ⟨rfl, fun rest' hp ↦ ?_⟩
    rcases rest' with _ | ⟨c, rest'⟩
    · rfl
    · obtain ⟨rfl, hrest⟩ := List.cons_prefix_cons.mp hp
      exact hnone rest' hrest
  rw [splitExponent_cons] at h
  split at h
  · next hmark =>
    split at h
    · next hempty =>
      cases h
      refine hleft fun cs' hp ↦ ?_
      have hnone := takeWhile_eq_nil (splitSign_stops (stops_of_takeWhile hempty) hp)
      rw [splitExponent_cons, if_pos hmark, hnone]
      rfl
    · next hdigits =>
      cases h
      have htakes := takes_takeWhile Char.isDigit (splitSign cs).2
      have hd : ∀ c ∈ (splitSign cs).2.takeWhile Char.isDigit, c.isDigit :=
        List.all_eq_true.mp List.all_takeWhile
      have hne : (splitSign cs).2.takeWhile Char.isDigit ≠ [] := by simpa using hdigits
      refine ⟨?_, fun rest' hp ↦ ?_⟩
      · rw [List.cons_append, List.cons_append, List.append_assoc, ← htakes.split, splitSign_append]
      · have hsign := splitSign_digits cs hd hne rest'
        obtain ⟨hdigits', hrest'⟩ := Prod.mk.inj (htakes.again rest' hp)
        rw [List.cons_append, List.cons_append, List.append_assoc, splitExponent_cons, if_pos hmark,
          hsign]
        simp only [hdigits', hrest', hdigits, Bool.false_eq_true, if_false, List.cons_append]
  · next hmark =>
    cases h
    exact hleft fun cs' _ ↦ by rw [splitExponent_cons, if_neg hmark]

theorem takes_splitSuffix {floating : Bool} {cs rest : List Char} {suffix : Option Char}
    (h : splitSuffix floating cs = (suffix, rest)) :
    Takes (splitSuffix floating) cs suffix suffix.toList rest := by
  rcases cs with _ | ⟨c, cs⟩
  · cases h
    exact ⟨rfl, fun rest' hp ↦ by rw [List.prefix_nil.mp hp]; rfl⟩
  simp only [splitSuffix] at h
  split at h
  · next hsuffix =>
    cases h
    exact ⟨rfl, fun rest' _ ↦ by
      rw [Option.toList_some, List.singleton_append, splitSuffix, if_pos hsuffix]⟩
  · next hnone =>
    cases h
    refine ⟨rfl, fun rest' hp ↦ ?_⟩
    rcases rest' with _ | ⟨d, rest'⟩
    · rfl
    · obtain ⟨rfl, -⟩ := List.cons_prefix_cons.mp hp
      rw [Option.toList_none, List.nil_append, splitSuffix, if_neg hnone]

/-- A token with the first character `c` is cut off, and is so however few of the characters behind it
are there. -/
def Cuts (lex : List Char → Except LexError Lexeme) (c : Char) (cs : List Char) (l : Lexeme) : Prop :=
  ∃ more, l.text = c :: more ∧ cs = more ++ l.rest ∧
    ∀ rest', rest' <+: l.rest → lex (more ++ rest') = .ok ⟨l.kind, l.text, rest'⟩

variable {c : Char} {cs : List Char} {l : Lexeme}

theorem cuts_word (hc : continuesWord c) :
    Cuts (fun cs ↦ .ok (word (c :: cs))) c cs (word (c :: cs)) := by
  have htakes := takes_takeWhile continuesWord (c :: cs)
  have htext : (c :: cs).takeWhile continuesWord = c :: cs.takeWhile continuesWord := by simp [hc]
  refine ⟨cs.takeWhile continuesWord, htext, ?_, fun rest' hp ↦ ?_⟩
  · have hsplit := htakes.split
    rw [htext] at hsplit
    exact (List.cons.inj hsplit).2
  · obtain ⟨htext', hrest'⟩ := Prod.mk.inj (htakes.again rest' hp)
    rw [htext, List.cons_append] at htext' hrest'
    simp only [word, htext', hrest', htext]

theorem number_eq {whole fraction exponent rest₀ rest₁ rest₂ rest₃ : List Char} {suffix : Option Char}
    (hwhole : (cs.takeWhile Char.isDigit, cs.dropWhile Char.isDigit) = (whole, rest₀))
    (hfraction : splitFraction rest₀ = (fraction, rest₁))
    (hexponent : splitExponent rest₁ = (exponent, rest₂))
    (hsuffix : splitSuffix (!fraction.isEmpty || !exponent.isEmpty) rest₂ = (suffix, rest₃)) :
    number cs =
      match rest₃.head?.filter clings, numberValue (String.ofList (whole ++ fraction ++ exponent))
        (!fraction.isEmpty || !exponent.isEmpty) suffix with
      | none, some value =>
        .ok ⟨.literal value, whole ++ fraction ++ exponent ++ suffix.toList, rest₃⟩
      | none, none =>
        .error ⟨.invalidNumber (String.ofList (whole ++ fraction ++ exponent ++ suffix.toList)),
          whole ++ fraction ++ exponent ++ suffix.toList⟩
      | some _, _ =>
        .error ⟨.invalidNumber (String.ofList (whole ++ fraction ++ exponent ++ suffix.toList ++
          rest₃.takeWhile continuesWord)),
          whole ++ fraction ++ exponent ++ suffix.toList ++ rest₃.takeWhile continuesWord⟩ := by
  obtain ⟨rfl, rfl⟩ := Prod.mk.inj hwhole
  have h := number.eq_def cs
  simp only [hfraction, hexponent, hsuffix] at h
  exact h

theorem cuts_number (hc : c.isDigit) (h : number (c :: cs) = .ok l) :
    Cuts (fun cs ↦ number (c :: cs)) c cs l := by
  have hwhole := takes_takeWhile Char.isDigit (c :: cs)
  have hfirst : (c :: cs).takeWhile Char.isDigit = c :: cs.takeWhile Char.isDigit := by simp [hc]
  generalize hrest₀ : (c :: cs).dropWhile Char.isDigit = rest₀ at hwhole
  rw [hfirst] at hwhole
  rcases hfraction₀ : splitFraction rest₀ with ⟨fraction, rest₁⟩
  rcases hexponent₀ : splitExponent rest₁ with ⟨exponent, rest₂⟩
  rcases hsuffix₀ : splitSuffix (!fraction.isEmpty || !exponent.isEmpty) rest₂ with ⟨suffix, rest₃⟩
  rw [number_eq (Prod.ext hfirst hrest₀) hfraction₀ hexponent₀ hsuffix₀] at h
  have hfraction := takes_splitFraction hfraction₀
  have hexponent := takes_splitExponent hexponent₀
  have hsuffix := takes_splitSuffix hsuffix₀
  split at h
  · next value hcling hvalue =>
    cases h
    refine ⟨cs.takeWhile Char.isDigit ++ fraction ++ exponent ++ suffix.toList, rfl, ?_,
      fun rest' hp ↦ ?_⟩
    · have hsplit := hwhole.split
      rw [hfraction.split, hexponent.split, hsuffix.split, List.cons_append] at hsplit
      simpa only [List.append_assoc] using (List.cons.inj hsplit).2
    · have hp₂ : suffix.toList ++ rest' <+: rest₂ :=
        hsuffix.split ▸ (List.prefix_append_right_inj _).mpr hp
      have hp₁ : exponent ++ (suffix.toList ++ rest') <+: rest₁ :=
        hexponent.split ▸ (List.prefix_append_right_inj _).mpr hp₂
      have hp₀ : fraction ++ (exponent ++ (suffix.toList ++ rest')) <+: rest₀ :=
        hfraction.split ▸ (List.prefix_append_right_inj _).mpr hp₁
      have hcling' : rest'.head?.filter clings = none := by
        rcases rest' with _ | ⟨d, rest'⟩
        · rfl
        · obtain ⟨more, rfl⟩ := hp
          exact hcling
      have hsame := number_eq (hwhole.again _ hp₀) (hfraction.again _ hp₁) (hexponent.again _ hp₂)
        (hsuffix.again _ hp)
      rw [hcling', hvalue] at hsame
      simpa only [List.append_assoc, List.cons_append] using hsame
  · cases h
  · cases h

theorem splitString_takes {mark : Char} {value text rest : List Char}
    (h : splitString mark cs = some (value, text, rest)) :
    cs = text ++ rest ∧ ∀ rest', splitString mark (text ++ rest') = some (value, text, rest') := by
  fun_induction splitString mark cs generalizing value text rest with
  | case1 => cases h
  | case2 c cs hmark =>
    cases h
    refine ⟨rfl, fun rest' ↦ ?_⟩
    rw [List.singleton_append, splitString.eq_def]
    exact if_pos hmark
  | case3 => cases h
  | case4 c hmark hslash escaped cs ih =>
    obtain ⟨⟨value, text, rest⟩, hsplit, heq⟩ := Option.map_eq_some_iff.mp h
    cases heq
    obtain ⟨rfl, hagain⟩ := ih hsplit
    refine ⟨rfl, fun rest' ↦ ?_⟩
    rw [List.cons_append, List.cons_append, splitString.eq_def]
    simp only [if_neg hmark, if_pos hslash, hagain, Option.map_some]
  | case5 c cs hmark hslash ih =>
    obtain ⟨⟨value, text, rest⟩, hsplit, heq⟩ := Option.map_eq_some_iff.mp h
    cases heq
    obtain ⟨rfl, hagain⟩ := ih hsplit
    refine ⟨rfl, fun rest' ↦ ?_⟩
    rw [List.cons_append, splitString.eq_def]
    simp only [if_neg hmark, if_neg hslash, hagain, Option.map_some]

theorem cuts_string (h : string c cs = .ok l) : Cuts (string c) c cs l := by
  unfold string at h
  split at h
  · next value text rest hsplit =>
    cases h
    obtain ⟨hcs, hagain⟩ := splitString_takes hsplit
    refine ⟨text, rfl, hcs, fun rest' _ ↦ ?_⟩
    rw [string, hagain]
  · cases h

theorem head?_ne_of_isPrefix {d : Char} {rest : List Char} (h : cs.head? ≠ some d)
    (hp : rest <+: cs) : rest.head? ≠ some d := by
  obtain ⟨more, rfl⟩ := hp
  cases rest with
  | nil => exact nofun
  | cons => exact h

theorem cuts_punctuation (h : punctuation c cs = .ok l) : Cuts (punctuation c) c cs l := by
  unfold punctuation at h
  dsimp only at h
  split at h
  -- signs of two characters
  case h_1 heq | h_2 heq | h_3 heq | h_4 heq | h_5 heq | h_6 heq =>
    obtain ⟨cs, rfl⟩ := List.head?_eq_some_iff.mp heq
    cases h
    exact ⟨_, rfl, rfl, fun _ _ ↦ rfl⟩
  -- signs that would be others with `=` behind them
  case h_18 hsign | h_19 hsign | h_20 hsign =>
    have hne : cs.head? ≠ some '=' := by simpa using hsign
    cases h
    refine ⟨[], rfl, rfl, fun rest' hp ↦ ?_⟩
    have hne' := head?_ne_of_isPrefix hne hp
    unfold punctuation
    split <;> simp_all
  case h_21 => cases h
  all_goals
    cases h
    exact ⟨[], rfl, rfl, fun _ _ ↦ rfl⟩

theorem continuesWord_of_startsWord (h : startsWord c) : continuesWord c := by
  simp only [startsWord, continuesWord, Text.isAlphanumeric, Bool.or_eq_true] at h ⊢
  exact h.imp_right .inl

/-- Which reader a token is left to depends on its first character only. -/
theorem cuts_first (h : first c cs = .ok l) : Cuts (first c) c cs l := by
  by_cases hdigit : c.isDigit
  · have hfirst : first c = fun cs ↦ number (c :: cs) := funext fun _ ↦ if_pos hdigit
    rw [hfirst] at h ⊢
    exact cuts_number hdigit h
  by_cases hmark : c == '\'' || c == '"'
  · have hfirst : first c = string c := funext fun _ ↦ (if_neg hdigit).trans (if_pos hmark)
    rw [hfirst] at h ⊢
    exact cuts_string h
  by_cases hword : startsWord c
  · have hfirst : first c = fun cs ↦ .ok (word (c :: cs)) :=
      funext fun _ ↦ (if_neg hdigit).trans ((if_neg hmark).trans (if_pos hword))
    rw [hfirst] at h ⊢
    cases h
    exact cuts_word (continuesWord_of_startsWord hword)
  · have hfirst : first c = punctuation c :=
      funext fun _ ↦ (if_neg hdigit).trans ((if_neg hmark).trans (if_neg hword))
    rw [hfirst] at h ⊢
    exact cuts_punctuation h

theorem text_of_number_error {e : LexError} (h : number cs = .error e) : e.text <+: cs := by
  have hwhole := takes_takeWhile Char.isDigit cs
  rcases hfraction : splitFraction (cs.dropWhile Char.isDigit) with ⟨fraction, rest₁⟩
  rcases hexponent : splitExponent rest₁ with ⟨exponent, rest₂⟩
  rcases hsuffix : splitSuffix (!fraction.isEmpty || !exponent.isEmpty) rest₂ with ⟨suffix, rest₃⟩
  rw [number_eq rfl hfraction hexponent hsuffix] at h
  have hsplit := hwhole.split
  rw [(takes_splitFraction hfraction).split, (takes_splitExponent hexponent).split,
    (takes_splitSuffix hsuffix).split, ← List.append_assoc, ← List.append_assoc,
    ← List.append_assoc] at hsplit
  split at h
  · cases h
  · cases h
    exact ⟨rest₃, hsplit.symm⟩
  · cases h
    refine ⟨rest₃.dropWhile continuesWord, ?_⟩
    rw [List.append_assoc, List.takeWhile_append_dropWhile]
    exact hsplit.symm

/-- The characters at fault are some in front. -/
theorem text_of_first_error {e : LexError} (h : first c cs = .error e) : e.text <+: c :: cs := by
  unfold first at h
  split at h
  · exact text_of_number_error h
  split at h
  · unfold string at h
    split at h
    · cases h
    · cases h
      exact List.prefix_rfl
  split at h
  · cases h
  · unfold punctuation at h
    dsimp only at h
    split at h
    case h_21 =>
      cases h
      exact ⟨cs, rfl⟩
    all_goals cases h

end Lexeme

/-- A span covers some of the characters that stand at byte `pos`. -/
def Span.Marks (pos : Nat) (cs : List Char) (s : Span) : Prop :=
  ∃ before marked after, cs = before ++ (marked ++ after) ∧
    s = .ofRange (pos + Text.byteSize before) (pos + Text.byteSize before + Text.byteSize marked)

namespace Token

open Text

/-- Characters that stand at byte `pos` are some tokens with blanks around them. -/
inductive Spelled : Nat → List Char → List Token → Prop
  | blank {pos : Nat} {cs : List Char} : (∀ c ∈ cs, Lexeme.isSpace c) → Spelled pos cs []
  | token {pos : Nat} {blanks more rest : List Char} {c : Char} {kind : TokenKind}
    {ts : List Token} :
    (∀ c ∈ blanks, Lexeme.isSpace c) → Lexeme.isSpace c = false →
      Lexeme.first c (more ++ rest) = .ok ⟨kind, c :: more, rest⟩ →
      Spelled (pos + byteSize blanks + byteSize (c :: more)) rest ts →
      Spelled pos (blanks ++ c :: (more ++ rest))
        (⟨kind, .ofRange (pos + byteSize blanks) (pos + byteSize blanks + byteSize (c :: more))⟩ :: ts)

/-- The token behind all others. -/
def final (stop : Nat) : Token := ⟨.eof, .ofRange stop stop⟩

variable {fuel pos : Nat} {cs : List Char} {ts us : List Token}

theorem spelled_of_scanFrom (hfuel : cs.length < fuel) (h : scanFrom fuel pos cs = .ok ts) :
    ∃ body, ts = body ++ [final (pos + byteSize cs)] ∧ Spelled pos cs body := by
  induction fuel generalizing pos cs ts with
  | zero => omega
  | succ fuel ih =>
    have hblanks : ∀ c ∈ cs.takeWhile Lexeme.isSpace, Lexeme.isSpace c :=
      List.all_eq_true.mp List.all_takeWhile
    have hsplit : cs.takeWhile Lexeme.isSpace ++ cs.dropWhile Lexeme.isSpace = cs :=
      List.takeWhile_append_dropWhile
    have hstops := Lexeme.stops_dropWhile (p := Lexeme.isSpace) cs
    unfold scanFrom at h
    dsimp only at h
    generalize cs.takeWhile Lexeme.isSpace = blanks at *
    generalize cs.dropWhile Lexeme.isSpace = rest at *
    subst hsplit
    split at h
    · cases h
      rw [List.append_nil]
      exact ⟨[], rfl, .blank hblanks⟩
    · next c rest =>
      split at h
      · cases h
      · next l hl =>
        obtain ⟨kind, text, rest⟩ := l
        obtain ⟨more, rfl, rfl, -⟩ := Lexeme.cuts_first hl
        split at h
        · cases h
        · next body hbody =>
          cases h
          have hlength : rest.length < fuel := by
            simp only [List.length_append, List.length_cons] at hfuel
            omega
          obtain ⟨body, rfl, hspelled⟩ := ih hlength hbody
          refine ⟨_, ?_, .token hblanks (hstops c rfl) hl hspelled⟩
          simp only [byteSize_append, byteSize, List.cons_append, Nat.add_assoc]

theorem scanFrom_of_spelled (h : Spelled pos cs ts) (hfuel : cs.length < fuel) :
    scanFrom fuel pos cs = .ok (ts ++ [final (pos + byteSize cs)]) := by
  induction h generalizing fuel with
  | @blank pos cs hblanks =>
    obtain ⟨fuel, rfl⟩ : ∃ n, fuel = n + 1 := ⟨fuel - 1, by omega⟩
    have hend : Lexeme.Stops Lexeme.isSpace [] := nofun
    have hnil := Lexeme.dropWhile_append_of_stops hblanks hend
    have hall := Lexeme.takeWhile_append_of_stops hblanks hend
    rw [List.append_nil] at hnil hall
    unfold scanFrom
    dsimp only
    rw [hnil, hall]
    rfl
  | @token pos blanks more rest c kind ts hblanks hc hl _ ih =>
    obtain ⟨fuel, rfl⟩ : ∃ n, fuel = n + 1 := ⟨fuel - 1, by omega⟩
    have hstops : Lexeme.Stops Lexeme.isSpace (c :: (more ++ rest)) := by
      rintro _ ⟨⟩
      exact hc
    have hlength : rest.length < fuel := by
      simp only [List.length_append, List.length_cons] at hfuel
      omega
    unfold scanFrom
    dsimp only
    rw [Lexeme.dropWhile_append_of_stops hblanks hstops,
      Lexeme.takeWhile_append_of_stops hblanks hstops]
    simp only [hl, ih hlength]
    simp only [byteSize_append, byteSize, List.cons_append, Nat.add_assoc]

/-- Tokens start where the ones before them stop, or behind that. -/
theorem Spelled.ordered (h : Spelled pos cs ts) :
    (∀ t ∈ ts, min pos Span.maxOffset ≤ t.span.start ∧ t.span.start ≤ t.span.stop) ∧
      ts.Pairwise fun t u ↦ t.span.stop ≤ u.span.start := by
  induction h with
  | blank => exact ⟨nofun, .nil⟩
  | @token pos blanks more rest c kind ts _ _ _ _ ih =>
    refine ⟨fun t ht ↦ ?_, List.pairwise_cons.mpr ⟨fun t ht ↦ (ih.1 t ht).1, ih.2⟩⟩
    rcases List.mem_cons.mp ht with rfl | ht
    · simp only [Span.ofRange]
      omega
    · have := ih.1 t ht
      omega

theorem Spelled.blanks {blanks : List Char} (hblanks : ∀ c ∈ blanks, Lexeme.isSpace c)
    (h : Spelled (pos + byteSize blanks) cs ts) : Spelled pos (blanks ++ cs) ts := by
  generalize hp : pos + byteSize blanks = p at h
  cases h with
  | blank hcs => exact .blank fun c hc ↦ (List.mem_append.mp hc).elim (hblanks c) (hcs c)
  | @token _ blanks' more rest c kind ts hblanks' hc hl h =>
    have hpos : p + byteSize blanks' = pos + byteSize (blanks ++ blanks') := by
      rw [byteSize_append, ← hp, Nat.add_assoc]
    rw [hpos] at h ⊢
    rw [← List.append_assoc]
    exact .token (fun c hc ↦ (List.mem_append.mp hc).elim (hblanks c) (hblanks' c)) hc hl h

/-- A token with nothing in front of it. -/
theorem Spelled.cons {c : Char} {more rest : List Char} {kind : TokenKind}
    (hc : Lexeme.isSpace c = false)
    (hl : Lexeme.first c (more ++ rest) = .ok ⟨kind, c :: more, rest⟩)
    (h : Spelled (pos + byteSize (c :: more)) rest ts) :
    Spelled pos (c :: more ++ rest) (⟨kind, .ofRange pos (pos + byteSize (c :: more))⟩ :: ts) := by
  have hblanks : ∀ c ∈ [], Lexeme.isSpace c := nofun
  exact .token hblanks hc hl h

/-- The span from the first of some tokens to the last. -/
def Spans (ts : List Token) (s : Span) : Prop :=
  ∃ first last, ts.head? = some first ∧ ts.getLast? = some last ∧
    s = ⟨first.span.start, last.span.stop⟩

/-- What stands in the span of some tokens is spelled with tokens of the same kinds, wherever it
stands. -/
theorem Spelled.marked (h : Spelled pos cs (ts ++ us)) {s : Span} (hs : Spans ts s) :
    ∃ before marked after, cs = before ++ (marked ++ after) ∧ marked ≠ [] ∧
      s = .ofRange (pos + byteSize before) (pos + byteSize before + byteSize marked) ∧
      (∀ c ∈ before, Lexeme.isSpace c) ∧
      ∀ pos', ∃ ts', Spelled pos' marked ts' ∧ ts'.map kind = ts.map kind := by
  induction ts generalizing pos cs s with
  | nil => obtain ⟨_, _, hfirst, -⟩ := hs; cases hfirst
  | cons t ts ih =>
    rw [List.cons_append] at h
    obtain ⟨first, last, hfirst, hlast, rfl⟩ := hs
    obtain rfl : t = first := Option.some.inj hfirst
    cases h with
    | @token _ blanks more rest c kind _ hblanks hc hl hrest =>
      obtain ⟨_, htext, -, hagain⟩ := Lexeme.cuts_first hl
      obtain rfl := (List.cons.inj htext).2
      rcases ts with _ | ⟨u, ts⟩
      · obtain rfl := Option.some.inj hlast
        refine ⟨blanks, c :: more, rest, rfl, List.cons_ne_nil _ _, rfl, hblanks, fun pos' ↦ ?_⟩
        have htoken : Spelled pos' (c :: more ++ []) _ :=
          .cons hc (hagain [] List.nil_prefix) (.blank nofun)
        rw [List.append_nil] at htoken
        exact ⟨_, htoken, rfl⟩
      · obtain ⟨before, marked, after, rfl, -, hspan, hbefore, hmarked⟩ :=
          ih hrest ⟨u, last, rfl, hlast, rfl⟩
        refine ⟨blanks, c :: more ++ (before ++ marked), after, by simp, by simp, ?_, hblanks,
          fun pos' ↦ ?_⟩
        · have hstop := congrArg Span.stop hspan
          simp only [Span.ofRange] at hstop ⊢
          rw [hstop]
          simp only [byteSize_append, Nat.add_assoc]
        · obtain ⟨ts', hspelled, hkinds⟩ := hmarked (pos' + byteSize (c :: more) + byteSize before)
          have hsame := hagain (before ++ marked) ⟨after, by simp⟩
          exact ⟨_, .cons hc hsame (.blanks hbefore hspelled), congrArg (kind :: ·) hkinds⟩

theorem Spelled.drop (h : Spelled pos cs (ts ++ us)) :
    ∃ before rest, cs = before ++ rest ∧ Spelled (pos + byteSize before) rest us := by
  induction ts generalizing pos cs with
  | nil => exact ⟨[], cs, rfl, h⟩
  | cons t ts ih =>
    rw [List.cons_append] at h
    cases h with
    | @token _ blanks more rest c kind _ hblanks hc hl hrest =>
      obtain ⟨before, rest, rfl, h'⟩ := ih hrest
      refine ⟨blanks ++ (c :: more ++ before), rest, by simp, ?_⟩
      simpa only [byteSize_append, Nat.add_assoc] using h'

/-- The same of tokens with others in front of them. -/
theorem Spelled.cutOut {before after : List Token} (h : Spelled pos cs (before ++ (ts ++ after)))
    {s : Span} (hs : Spans ts s) :
    ∃ front marked back, cs = front ++ (marked ++ back) ∧ marked ≠ [] ∧
      s = .ofRange (pos + byteSize front) (pos + byteSize front + byteSize marked) ∧
      ∀ pos', ∃ ts', Spelled pos' marked ts' ∧ ts'.map kind = ts.map kind := by
  obtain ⟨front, rest, rfl, h'⟩ := h.drop
  obtain ⟨blanks, marked, back, rfl, hne, hspan, -, hagain⟩ := h'.marked hs
  refine ⟨front ++ blanks, marked, back, by simp, hne, ?_, hagain⟩
  rw [hspan, byteSize_append, Nat.add_assoc pos]

end Token

end LiveBinding
