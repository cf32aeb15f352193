import LiveBinding.Proofs.Places

/-!
The tokens of a text and the blanks between them make up the whole text. A number is cut off where a
letter, a digit or an underscore of ASCII follows it, so that no word behind it begins with one.
-/

namespace LiveBinding

namespace Token

open Text

/-- The scanner comes to an end with this result on characters that stand at byte `pos`. -/
inductive Scans : Nat → List Char → Except CompileError (List Token) → Prop
  | blank {pos : Nat} {cs : List Char} (hcs : ∀ c ∈ cs, Lexeme.isSpace c) :
      Scans pos cs (.ok [final (pos + byteSize cs)])
  | fault {pos : Nat} {blanks rest : List Char} {c : Char} {e : LexError}
      (hblanks : ∀ c ∈ blanks, Lexeme.isSpace c) (hc : Lexeme.isSpace c = false)
      (he : Lexeme.first c rest = .error e) :
      Scans pos (blanks ++ c :: rest) (.error ⟨e.problem, some (.ofRange (pos + byteSize blanks)
        (pos + byteSize blanks + byteSize e.text)), none⟩)
  | token {pos : Nat} {blanks rest : List Char} {c : Char} {l : Lexeme}
      {result : Except CompileError (List Token)}
      (hblanks : ∀ c ∈ blanks, Lexeme.isSpace c) (hc : Lexeme.isSpace c = false)
      (hl : Lexeme.first c rest = .ok l)
      (h : Scans (pos + byteSize blanks + byteSize l.text) l.rest result) :
      Scans pos (blanks ++ c :: rest) (result.map (⟨l.kind, .ofRange (pos + byteSize blanks)
        (pos + byteSize blanks + byteSize l.text)⟩ :: ·))

variable {pos fuel : Nat} {cs : List Char} {result : Except CompileError (List Token)}

/-- The blanks in front of a character that is none are all that are cut off. -/
theorem scanFrom_succ {blanks rest : List Char} {c : Char}
    (hblanks : ∀ c ∈ blanks, Lexeme.isSpace c) (hc : Lexeme.isSpace c = false) :
    scanFrom (fuel + 1) pos (blanks ++ c :: rest) =
      match Lexeme.first c rest with
      | .error e => .error ⟨e.problem, some (.ofRange (pos + byteSize blanks)
          (pos + byteSize blanks + byteSize e.text)), none⟩
      | .ok l => (scanFrom fuel (pos + byteSize blanks + byteSize l.text) l.rest).map
          (⟨l.kind, .ofRange (pos + byteSize blanks)
            (pos + byteSize blanks + byteSize l.text)⟩ :: ·) := by
  have hstops : Lexeme.Stops Lexeme.isSpace (c :: rest) := by
    rintro _ ⟨⟩
    exact hc
  rw [scanFrom, Lexeme.dropWhile_append_of_stops hblanks hstops,
    Lexeme.takeWhile_append_of_stops hblanks hstops]
  dsimp only
  cases Lexeme.first c rest with
  | error e => rfl
  | ok l =>
    dsimp only
    cases scanFrom fuel (pos + byteSize blanks + byteSize l.text) l.rest <;> rfl

theorem length_rest_lt {c : Char} {rest : List Char} {l : Lexeme}
    (h : Lexeme.first c rest = .ok l) : l.rest.length < (c :: rest).length := by
  obtain ⟨more, -, rfl, -⟩ := Lexeme.cuts_first h
  rw [List.length_cons, List.length_append]
  exact Nat.lt_succ_of_le (Nat.le_add_left _ _)

/-- With more fuel than characters the scanner comes to its end. -/
theorem scans_scanFrom (hfuel : cs.length < fuel) : Scans pos cs (scanFrom fuel pos cs) := by
  induction fuel generalizing pos cs with
  | zero => omega
  | succ fuel ih =>
    have hblanks : ∀ c ∈ cs.takeWhile Lexeme.isSpace, Lexeme.isSpace c :=
      List.all_eq_true.mp List.all_takeWhile
    have hsplit : cs.takeWhile Lexeme.isSpace ++ cs.dropWhile Lexeme.isSpace = cs :=
      List.takeWhile_append_dropWhile
    have hstops := Lexeme.stops_dropWhile (p := Lexeme.isSpace) cs
    generalize cs.takeWhile Lexeme.isSpace = blanks at *
    generalize cs.dropWhile Lexeme.isSpace = rest at *
    subst hsplit
    cases rest with
    | nil =>
      rw [List.append_nil] at hfuel ⊢
      rw [scanFrom_of_spelled (.blank hblanks) hfuel]
      exact .blank hblanks
    | cons c rest =>
      have hc := hstops c rfl
      rw [scanFrom_succ hblanks hc]
      cases hl : Lexeme.first c rest with
      | error e => exact .fault hblanks hc hl
      | ok l =>
        have hlength := length_rest_lt hl
        rw [List.length_append] at hfuel
        exact .token hblanks hc hl (ih (by omega))

theorem Scans.eq_scanFrom (h : Scans pos cs result) (hfuel : cs.length < fuel) :
    result = scanFrom fuel pos cs := by
  induction h generalizing fuel with
  | @blank pos cs hcs =>
    have hspelled : Spelled pos cs [] := .blank hcs
    exact (scanFrom_of_spelled hspelled hfuel).symm
  | @fault pos blanks rest c e hblanks hc he =>
    obtain ⟨fuel, rfl⟩ : ∃ n, fuel = n + 1 := ⟨fuel - 1, by omega⟩
    rw [scanFrom_succ hblanks hc, he]
  | @token pos blanks rest c l result hblanks hc hl _ ih =>
    obtain ⟨fuel, rfl⟩ : ∃ n, fuel = n + 1 := ⟨fuel - 1, by omega⟩
    have hlength := length_rest_lt hl
    rw [List.length_append] at hfuel
    rw [scanFrom_succ hblanks hc, hl]
    dsimp only
    rw [← ih (by omega)]

/-- A token with the bytes that it covers. -/
structure Piece where
  kind : TokenKind
  start : Nat
  stop : Nat

/-- Offsets beyond 32 bits are not told apart. -/
def Piece.token (p : Piece) : Token := ⟨p.kind, .ofRange p.start p.stop⟩

/-- Only blanks stand between byte `stop` and the first piece, and between a piece and the next. -/
def Spaced (source : String) : Nat → List Piece → Prop
  | _, [] => True
  | stop, p :: ps => (∃ gap, slice? source stop p.start = some gap ∧
      ∀ c ∈ gap.toList, Lexeme.isSpace c) ∧ Spaced source p.stop ps

/-- Pieces make up a text together with the blanks between them. -/
structure Tiles (source : String) (ps : List Piece) : Prop where
  ordered : ps.Pairwise fun p q ↦ p.stop ≤ q.start
  inside : ∀ p ∈ ps, (slice? source p.start p.stop).isSome
  spaced : Spaced source 0 ps
  final : ∃ body, ps = body ++ [⟨.eof, byteSize source.toList, byteSize source.toList⟩] ∧
    ∀ p ∈ body, p.start < p.stop ∧ p.kind ≠ .eof

theorem byteSize_pos (c : Char) (more : List Char) : 0 < byteSize (c :: more) :=
  Nat.add_pos_left c.utf8Size_pos _

/-- What is spelled behind some characters of a text is made up of pieces behind them. -/
theorem Spelled.pieces {source : String} {front : List Char} {body : List Token}
    (h : Spelled pos cs body) (hfront : byteSize front = pos)
    (hsource : source.toList = front ++ cs) :
    ∃ ps : List Piece, body = ps.map Piece.token ∧
      (∀ p ∈ ps, pos ≤ p.start ∧ p.start < p.stop ∧ p.stop ≤ byteSize source.toList ∧
        p.kind ≠ .eof ∧ (slice? source p.start p.stop).isSome) ∧
      (ps.Pairwise fun p q ↦ p.stop ≤ q.start) ∧
      Spaced source pos (ps ++ [⟨.eof, byteSize source.toList, byteSize source.toList⟩]) := by
  induction h generalizing front with
  | @blank pos cs hcs =>
    refine ⟨[], rfl, by simp, .nil, ⟨String.ofList cs, ?_, by simpa using hcs⟩, trivial⟩
    have hsplit : source.toList = front ++ (cs ++ []) := by rw [hsource, List.append_nil]
    rw [hsource, byteSize_append, ← hfront]
    exact slice?_append hsplit
  | @token pos blanks more rest c kind ts hblanks hc hl _ ih =>
    subst hfront
    have hthere : byteSize (front ++ blanks ++ c :: more) =
        byteSize front + byteSize blanks + byteSize (c :: more) := by
      rw [byteSize_append, byteSize_append]
    have hblank : source.toList = front ++ (blanks ++ c :: (more ++ rest)) := hsource
    have htext : source.toList = front ++ blanks ++ (c :: more ++ rest) := by
      rw [hsource, List.append_assoc]
      rfl
    obtain ⟨ps, rfl, hps, hordered, hspaced⟩ := ih hthere (htext.trans (List.append_assoc ..).symm)
    have hgap := slice?_append hblank
    have htoken := slice?_append htext
    have htotal : byteSize source.toList =
        byteSize front + byteSize blanks + byteSize (c :: more) + byteSize rest := by
      rw [hsource, ← List.cons_append, byteSize_append, byteSize_append, byteSize_append]
      omega
    have hpos := byteSize_pos c more
    rw [byteSize_append] at htoken
    refine ⟨⟨kind, byteSize front + byteSize blanks,
      byteSize front + byteSize blanks + byteSize (c :: more)⟩ :: ps, rfl, fun p hp ↦ ?_, ?_,
      ⟨String.ofList blanks, hgap, by simpa using hblanks⟩, hspaced⟩
    · rcases List.mem_cons.mp hp with rfl | hp
      · exact ⟨Nat.le_add_right _ _, Nat.lt_add_of_pos_right hpos, by dsimp only; omega,
          Lexeme.first_kind hl, Option.isSome_of_eq_some htoken⟩
      · obtain ⟨hstart, h⟩ := hps p hp
        exact ⟨by omega, h⟩
    · exact List.pairwise_cons.mpr ⟨fun p hp ↦ (hps p hp).1, hordered⟩

/-- The tokens of a text tile it. The scanner comes to an end on every text, with one result, and if
it finds tokens these are pieces that follow one another with blanks between them up to the end of
the text. Their spans are the bytes of the pieces as far as offsets reach. -/
theorem scan_tiles (source : String) :
    (∀ result, Scans 0 source.toList result ↔ scan source = result) ∧
    ∀ ts, scan source = .ok ts → ∃ ps : List Piece, ts = ps.map Piece.token ∧ Tiles source ps ∧
      (byteSize source.toList ≤ Span.maxOffset → ∀ p ∈ ps, p.token.span = ⟨p.start, p.stop⟩) := by
  have hfuel : source.toList.length < source.toList.length + 1 := Nat.lt_succ_self _
  refine ⟨fun result ↦ ⟨fun h ↦ (h.eq_scanFrom hfuel).symm, ?_⟩, fun ts hts ↦ ?_⟩
  · rintro rfl
    exact scans_scanFrom hfuel
  obtain ⟨body, rfl, hspelled⟩ := spelled_of_scanFrom hfuel hts
  have hfront : source.toList = [] ++ source.toList := rfl
  obtain ⟨ps, rfl, hps, hordered, hspaced⟩ := hspelled.pieces rfl hfront
  have hback : source.toList = source.toList ++ ([] ++ []) := (List.append_nil _).symm
  have hend : (slice? source (byteSize source.toList) (byteSize source.toList)).isSome :=
    Option.isSome_of_eq_some (slice?_append hback)
  refine ⟨ps ++ [⟨.eof, byteSize source.toList, byteSize source.toList⟩], ?_,
    ⟨?_, ?_, by exact hspaced, ps, rfl, ?_⟩, ?_⟩
  · rw [List.map_append, Nat.zero_add]
    rfl
  · refine List.pairwise_append.mpr ⟨hordered, List.pairwise_singleton .., fun p hp q hq ↦ ?_⟩
    rw [List.mem_singleton.mp hq]
    exact (hps p hp).2.2.1
  · intro p hp
    rcases List.mem_append.mp hp with hp | hp
    · exact (hps p hp).2.2.2.2
    · rw [List.mem_singleton.mp hp]
      exact hend
  · exact fun p hp ↦ ⟨(hps p hp).2.1, (hps p hp).2.2.2.1⟩
  · intro hsize p hp
    have hle : p.start ≤ byteSize source.toList ∧ p.stop ≤ byteSize source.toList := by
      rcases List.mem_append.mp hp with hp | hp
      · have h := hps p hp
        omega
      · rw [List.mem_singleton.mp hp]
        exact ⟨Nat.le_refl _, Nat.le_refl _⟩
    rw [Piece.token, Span.ofRange, Nat.min_eq_left (Nat.le_trans hle.1 hsize),
      Nat.min_eq_left (Nat.le_trans hle.2 hsize)]

/-- Characters of more than one byte, and blanks around the tokens. -/
def accented : String := " é+'ü' "

theorem scan_tiles_accented :
    scan accented = .ok [⟨.ident "é", ⟨1, 3⟩⟩, ⟨.operator .add, ⟨3, 4⟩⟩,
      ⟨.literal (.string "ü"), ⟨4, 8⟩⟩, ⟨.eof, ⟨9, 9⟩⟩] ∧
    ∃ ps : List Piece, ps.map Piece.token = [⟨.ident "é", ⟨1, 3⟩⟩, ⟨.operator .add, ⟨3, 4⟩⟩,
      ⟨.literal (.string "ü"), ⟨4, 8⟩⟩, ⟨.eof, ⟨9, 9⟩⟩] ∧ Tiles accented ps := by
  have hscan : scan accented = .ok [⟨.ident "é", ⟨1, 3⟩⟩, ⟨.operator .add, ⟨3, 4⟩⟩,
      ⟨.literal (.string "ü"), ⟨4, 8⟩⟩, ⟨.eof, ⟨9, 9⟩⟩] := by decide +kernel
  obtain ⟨ps, hps, htiles, -⟩ := (scan_tiles accented).2 _ hscan
  exact ⟨hscan, ps, hps.symm, htiles⟩

/-- A word behind some blanks. -/
theorem scan_behind {blanks : List Char} (hblanks : ∀ c ∈ blanks, Lexeme.isSpace c) :
    scan (String.ofList (blanks ++ ['a'])) = .ok
      [⟨.ident "a", .ofRange (byteSize blanks) (byteSize blanks + 1)⟩,
        ⟨.eof, .ofRange (byteSize blanks + 1) (byteSize blanks + 1)⟩] := by
  have hword : Lexeme.first 'a' [] = .ok ⟨.ident "a", ['a'], []⟩ := rfl
  have hend : Scans (0 + byteSize blanks + byteSize ['a']) [] _ := .blank (by simp)
  have hscan := (hend.token hblanks rfl hword).eq_scanFrom (Nat.lt_succ_self _)
  rw [Nat.zero_add] at hscan
  rw [scan, String.toList_ofList]
  exact hscan.symm

/-- A word behind so many blanks that no offset tells where it ends. -/
def farWord : String := String.ofList (List.replicate Span.maxOffset ' ' ++ ['a'])

/-- The span of a token is empty if the token is farther from the start than offsets reach. -/
theorem scan_farWord :
    scan farWord = .ok [⟨.ident "a", ⟨4294967295, 4294967295⟩⟩, ⟨.eof, ⟨4294967295, 4294967295⟩⟩] ∧
      Span.isEmpty ⟨4294967295, 4294967295⟩ := by
  have hblanks : ∀ c ∈ List.replicate Span.maxOffset ' ', Lexeme.isSpace c := by
    intro c hc
    rw [List.eq_of_mem_replicate hc]
    decide
  have hsize : byteSize (List.replicate Span.maxOffset ' ') = Span.maxOffset := by
    rw [byteSize_replicate, show ' '.utf8Size = 1 by decide, Nat.mul_one]
  refine ⟨(scan_behind hblanks).trans ?_, rfl⟩
  rw [hsize]
  rfl

end Token

/-- A number literal. -/
def TokenKind.isNumber : TokenKind → Bool
  | literal (.int _) | literal (.long _) | literal (.float _) | literal (.double _) => true
  | _ => false

/-- An identifier, `true`, `false` or `null`. -/
def TokenKind.isWord : TokenKind → Bool
  | ident _ | literal .null | literal (.boolean _) => true
  | _ => false

namespace Lexeme

variable {c : Char} {cs : List Char} {l : Lexeme}

/-- No character that clings to a number follows it. -/
theorem stops_number (h : number cs = .ok l) : Stops clings l.rest := by
  rcases hfraction : splitFraction (cs.dropWhile Char.isDigit) with ⟨fraction, rest₁⟩
  rcases hexponent : splitExponent rest₁ with ⟨exponent, rest₂⟩
  rcases hsuffix : splitSuffix (!fraction.isEmpty || !exponent.isEmpty) rest₂ with ⟨suffix, rest₃⟩
  rw [number_eq rfl hfraction hexponent hsuffix] at h
  split at h
  · next hnone _ =>
    cases h
    intro c hc
    simpa [Option.mem_def.mp hc, Option.filter] using hnone
  · cases h
  · cases h

theorem punctuation_kind_eq (h : punctuation c cs = .ok l) :
    l.kind.isNumber = false ∧ l.kind.isWord = false := by
  unfold punctuation at h
  dsimp only at h
  split at h <;> cases h <;> exact ⟨rfl, rfl⟩

theorem string_kind_eq (h : string c cs = .ok l) :
    l.kind.isNumber = false ∧ l.kind.isWord = false := by
  unfold string at h
  split at h
  · cases h
    exact ⟨rfl, rfl⟩
  · cases h

theorem isNumber_wordKind (text : List Char) : (wordKind text).isNumber = false := by
  unfold wordKind
  split <;> rfl

theorem number_of_isNumber (h : first c cs = .ok l) (hl : l.kind.isNumber) :
    number (c :: cs) = .ok l := by
  unfold first at h
  split at h
  · exact h
  split at h
  · rw [(string_kind_eq h).1] at hl
    cases hl
  split at h
  · cases h
    rw [word, isNumber_wordKind] at hl
    cases hl
  · rw [(punctuation_kind_eq h).1] at hl
    cases hl

theorem startsWord_of_isWord (h : first c cs = .ok l) (hl : l.kind.isWord) (hc : clings c = false) :
    startsWord c := by
  unfold first at h
  split at h
  · next hdigit => simp [clings, Char.isAlphanum, hdigit] at hc
  split at h
  · rw [(string_kind_eq h).2] at hl
    cases hl
  split at h
  · next hword => exact hword
  · rw [(punctuation_kind_eq h).2] at hl
    cases hl

/-- Of the characters of ASCII that start a word only `$` does not cling to a number. -/
theorem foreign_of_startsWord (h : startsWord c) (hc : clings c = false) :
    c = '$' ∨ 127 < c.toNat := by
  have hascii : ∀ n : Fin 128, startsWord (Char.ofNat n) →
      clings (Char.ofNat n) ∨ Char.ofNat n = '$' := by decide +kernel
  by_cases hn : 127 < c.toNat
  · exact .inr hn
  · have hchar := hascii ⟨c.toNat, by omega⟩
    dsimp only at hchar
    rw [Char.ofNat_toNat, hc] at hchar
    exact .inl ((hchar h).resolve_left Bool.false_ne_true)

end Lexeme

namespace Token

open Text

/-- A word that follows a number without a gap begins with `$` or with a character beyond ASCII. -/
theorem word_behind_number {source : String} {before after : List Token} {t u : Token}
    (h : scan source = .ok (before ++ t :: u :: after)) (ht : t.kind.isNumber) (hu : u.kind.isWord)
    (hsize : byteSize source.toList ≤ Span.maxOffset) (hgap : t.span.stop = u.span.start) :
    ∃ c more, u.span.slice? source = some (String.ofList (c :: more)) ∧
      (c = '$' ∨ 127 < c.toNat) := by
  obtain ⟨body, hbody, hspelled⟩ := spelled_of_scanFrom (Nat.lt_succ_self _) h
  -- the end of the text is no word
  obtain ⟨after, rfl⟩ : ∃ after', body = before ++ t :: u :: after' := by
    rcases List.eq_nil_or_concat after with rfl | ⟨after', last, rfl⟩
    · have hlast := congrArg List.getLast? hbody
      simp at hlast
      rw [hlast] at hu
      cases hu
    · rw [List.concat_eq_append, ← List.cons_append, ← List.cons_append,
        ← List.append_assoc] at hbody
      exact ⟨after', (List.append_inj' hbody rfl).1.symm⟩
  obtain ⟨front, rest, hsource, hrest⟩ := hspelled.drop
  cases hrest with
  | @token _ blanks more rest c kind _ hblanks hc hl hrest =>
  cases hrest with
  | @token _ gap more' rest' c' kind' _ _ _ hl' _ =>
    have hsplit : source.toList =
        front ++ (blanks ++ c :: more) ++ gap ++ (c' :: more' ++ rest') := by simp [hsource]
    have htotal := hsize
    rw [hsplit, byteSize_append, byteSize_append, byteSize_append, byteSize_append] at htotal
    -- there is no gap, so that the word is what follows the number
    obtain rfl : gap = [] := by
      cases gap with
      | nil => rfl
      | cons d gap =>
        have hpos := byteSize_pos d gap
        simp only [Span.ofRange] at hgap
        omega
    have hclings := Lexeme.stops_number (Lexeme.number_of_isNumber hl ht) c' rfl
    have hstarts := Lexeme.startsWord_of_isWord hl' hu hclings
    refine ⟨c', more', ?_, Lexeme.foreign_of_startsWord hstarts hclings⟩
    have hword : source.toList = front ++ (blanks ++ c :: more) ++ (c' :: more' ++ rest') := by
      simp [hsource]
    have hslice := Span.slice?_of_le hword hsize
    rw [byteSize_append, byteSize_append] at hslice
    simpa [byteSize, Nat.add_assoc] using hslice

/-- Such words are not parts of the number. -/
theorem scan_number_word : scan "12é" =
    .ok [⟨.literal (.int 12), ⟨0, 2⟩⟩, ⟨.ident "é", ⟨2, 4⟩⟩, ⟨.eof, ⟨4, 4⟩⟩] := by
  decide +kernel

end Token

end LiveBinding
