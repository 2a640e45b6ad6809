import EditorMode.Proofs.Stepping
import EditorMode.Proofs.TrailingBlanks

/-! # The words that can be configured as atoms

Which words a host may configure as atoms is decided by the configuration, from the characters of
the word.  Which words a line has there is decided by the lexer, from the first character and the
rules for words.  The two share nothing but the classes of characters, and they agree: a word may be
configured exactly if it is a line of one token that is neither a variable nor a singleton, made of
word characters only (`State.isBareAtom_iff_tokenizeLine`).

A configured atom is therefore met wherever it stands in a line as a token of its own.  With nothing
pending, a lexeme that is spelled like it can be nothing else than a word
(`Lexeme.category_of_isBareAtom`), and among the rules for words the extra atoms come before the
reserved words. -/

namespace EditorMode

/-! ## Characters -/

namespace Word

variable {c initial : Char} {others : Text}

/-- Whether an extra atom may begin with a character. -/
def isAtomInitial (c : Char) : Bool := c.isLower || c == '$'

theorem isBareAtom_cons :
    isBareAtom (initial :: others) ↔ isAtomInitial initial ∧ ∀ d ∈ others, isWordChar d := by
  simp [isBareAtom, isAtomInitial]

theorem ne_nil_of_isBareAtom {w : Text} (h : isBareAtom w) : w ≠ [] := by
  rintro rfl
  cases h

/-- The three kinds of alphanumeric characters exclude one another. -/
theorem not_isUpper_of_isLower {c : Char} (h : c.isLower) : ¬ c.isUpper ∧ ¬ c.isDigit := by
  obtain ⟨ha, -⟩ := Bool.and_eq_true_iff.mp h
  have hfirst : 97 ≤ c.toNat := UInt32.le_iff_toNat_le.mp (of_decide_eq_true ha)
  constructor
  · intro hupper
    obtain ⟨-, hZ⟩ : 'A'.val ≤ c.val ∧ c.val ≤ 'Z'.val := of_decide_eq_true hupper
    have hlast : c.toNat ≤ 90 := UInt32.le_iff_toNat_le.mp hZ
    omega
  · intro hdigit
    have hrange : 48 ≤ c.toNat ∧ c.toNat ≤ 57 := Char.isDigit_iff_toNat.mp hdigit
    omega

/-- **An extra atom begins with a word character that begins no other word and no number.** -/
theorem isAtomInitial_iff :
    isAtomInitial c ↔ isWordChar c ∧ ¬ c.isUpper ∧ ¬ c.isDigit ∧ c ≠ '_' := by
  constructor
  · intro h
    rcases Bool.or_eq_true_iff.mp h with hlower | hdollar
    · have halpha : c.isAlpha := Bool.or_eq_true_iff.mpr (.inr hlower)
      have halphanum : c.isAlphanum := Bool.or_eq_true_iff.mpr (.inl halpha)
      obtain ⟨hupper, hdigit⟩ := not_isUpper_of_isLower hlower
      refine ⟨?_, hupper, hdigit, ?_⟩
      · simp [isWordChar, halphanum]
      · rintro rfl
        exact absurd hlower (by decide)
    · obtain rfl := beq_iff_eq.mp hdollar
      decide
  · rintro ⟨hword, hupper, hdigit, hunder⟩
    simp only [isWordChar, Bool.or_eq_true, beq_iff_eq] at hword
    rcases hword with (halphanum | rfl) | rfl
    · rcases Bool.or_eq_true_iff.mp halphanum with halpha | hisDigit
      · rcases Bool.or_eq_true_iff.mp halpha with hisUpper | hlower
        · exact absurd hisUpper hupper
        · exact Bool.or_eq_true_iff.mpr (.inl hlower)
      · exact absurd hisDigit hdigit
    · exact absurd rfl hunder
    · rfl

/-- It begins nothing else, either. -/
theorem not_isQuote_of_isWordChar (h : isWordChar c) :
    c ≠ '\"' ∧ c ≠ '\x60' ∧ c ≠ '/' := by
  refine ⟨?_, ?_, ?_⟩
  all_goals
    rintro rfl
    exact absurd h (by decide)

/-! ## Categories -/

/-- The language gives every word that begins like an atom one of three categories. -/
theorem category_of_isAtomInitial (extraAtoms : WordSet) (h : isAtomInitial initial) :
    category extraAtoms (initial :: others) =
      if initial :: others ∈ extraAtoms then .atom else reservedCategory (initial :: others) := by
  obtain ⟨-, hupper, -, hunder⟩ := isAtomInitial_iff.mp h
  exact category_of_not_isUpper hunder hupper

theorem category_eq_atom_of_mem {extraAtoms : WordSet} {w : Text} (h : isBareAtom w)
    (hmem : w ∈ extraAtoms) : category extraAtoms w = .atom := by
  obtain ⟨initial, others, rfl⟩ := List.exists_cons_of_ne_nil (ne_nil_of_isBareAtom h)
  rw [category_of_isAtomInitial extraAtoms (isBareAtom_cons.mp h).1, if_pos hmem]

theorem reservedCategory_cases (w : Text) :
    reservedCategory w = .keyword ∨ reservedCategory w = .builtin ∨ reservedCategory w = .atom := by
  rw [reservedCategory]
  split
  · exact .inl rfl
  · split
    · exact .inr (.inl rfl)
    · exact .inr (.inr rfl)

/-- A word with one of these categories begins neither like a variable nor like a singleton. -/
theorem HasCategory.initial_ne {extraAtoms : WordSet} {c : Category}
    (h : HasCategory extraAtoms (initial :: others) c)
    (hc : c = .keyword ∨ c = .builtin ∨ c = .atom) : initial ≠ '_' ∧ ¬ initial.isUpper := by
  constructor
  · rintro rfl
    cases others with
    | nil =>
      obtain rfl := category_of_hasCategory h
      simp [category] at hc
    | cons d others =>
      obtain rfl := category_of_hasCategory h
      simp [category] at hc
  · intro hupper
    obtain rfl := (category_of_isUpper hupper).symm.trans (category_of_hasCategory h)
    simp at hc

end Word

/-! ## Lexemes -/

namespace Lexeme

open Word

variable {extraAtoms : WordSet} {after : Option Construct} {w rest : Text} {c : Category}

/-- A word that may be configured is a lexeme, where no word character follows, -/
theorem of_isBareAtom (extraAtoms : WordSet) (h : isBareAtom w)
    (hends : ∀ d, rest.head? = some d → ¬ isWordChar d) :
    Lexeme extraAtoms none w rest (category extraAtoms w) none := by
  obtain ⟨initial, others, rfl⟩ := List.exists_cons_of_ne_nil (ne_nil_of_isBareAtom h)
  obtain ⟨hinitial, hothers⟩ := isBareAtom_cons.mp h
  obtain ⟨hword, -, hdigit, -⟩ := isAtomInitial_iff.mp hinitial
  obtain ⟨hquote, hbackquote, hslash⟩ := not_isQuote_of_isWordChar hword
  have hrun : Text.MaximalRun Alphabet.wordCharacters.contains others rest :=
    Alphabet.isWordChar_eq ▸ ⟨hothers, hends⟩
  have hblank : initial ∉ Alphabet.blanks :=
    Alphabet.not_mem_blanks.1 initial (Alphabet.isWordChar_iff.mp hword)
  refine .word hblank ⟨hquote, hbackquote⟩ ?_ (mt Alphabet.isDigit_iff.mpr hdigit)
    (fun heq => absurd heq hslash) hrun (hasCategory_category extraAtoms initial others)
  exact fun hmem => not_isPunctuation_of_isWordChar hword (List.contains_iff_mem.mpr hmem)

/-- and nothing that is not a word is spelled like it. -/
theorem category_of_isBareAtom (hw : Lexeme extraAtoms none w rest c after) (h : isBareAtom w) :
    c = category extraAtoms w := by
  generalize hpending : (none : Option Construct) = pending at hw
  cases hw with
  | resumed => cases hpending
  | @blank w rest hne hrun =>
    obtain ⟨initial, others, rfl⟩ := List.exists_cons_of_ne_nil hne
    obtain ⟨hword, -⟩ := isAtomInitial_iff.mp (isBareAtom_cons.mp h).1
    exact absurd (List.contains_iff_mem.mp (hrun.all initial List.mem_cons_self))
      (Alphabet.not_mem_blanks.1 initial (Alphabet.isWordChar_iff.mp hword))
  | string hquote _ =>
    obtain ⟨hword, -⟩ := isAtomInitial_iff.mp (isBareAtom_cons.mp h).1
    obtain ⟨hne, hne', -⟩ := not_isQuote_of_isWordChar hword
    exact absurd hquote (not_or.mpr ⟨hne, hne'⟩)
  | punctuation hmem =>
    obtain ⟨hword, -⟩ := isAtomInitial_iff.mp (isBareAtom_cons.mp h).1
    exact absurd (List.contains_iff_mem.mpr hmem) (not_isPunctuation_of_isWordChar hword)
  | number hdigit _ =>
    obtain ⟨-, -, hnotDigit, -⟩ := isAtomInitial_iff.mp (isBareAtom_cons.mp h).1
    exact absurd (Alphabet.isDigit_iff.mpr hdigit) hnotDigit
  | blockComment | lineComment => exact absurd (isBareAtom_cons.mp h).1 (by decide)
  | word _ _ _ _ _ _ hcategory => exact (category_of_hasCategory hcategory).symm

/-- A lexeme of word characters that is a keyword, a builtin or an atom may be configured. -/
theorem isBareAtom_of_category (hw : Lexeme extraAtoms none w rest c after)
    (hword : ∀ d ∈ w, isWordChar d) (hc : c = .keyword ∨ c = .builtin ∨ c = .atom) :
    isBareAtom w := by
  generalize hpending : (none : Option Construct) = pending at hw
  cases hw with
  | resumed => cases hpending
  | blank | string | punctuation | number | blockComment | lineComment => simp at hc
  | word _ _ _ hdigit _ _ hcategory =>
    obtain ⟨hunder, hupper⟩ := hcategory.initial_ne hc
    obtain ⟨hinitial, hothers⟩ := List.forall_mem_cons.mp hword
    have hatom : isAtomInitial _ :=
      isAtomInitial_iff.mpr ⟨hinitial, hupper, mt Alphabet.isDigit_iff.mp hdigit, hunder⟩
    exact isBareAtom_cons.mpr ⟨hatom, hothers⟩

end Lexeme

/-! ## Lines of one word -/

namespace State

variable {config : Config} {st final : State} {w : Text}

/-- A line that does not begin with a blank is entered at no columns. -/
theorem exists_enterLine_of_not_isBlank {line : Text}
    (h : ∀ d, line.head? = some d → ¬ Text.isBlank d) (tabSize : Nat) (st : State) :
    ∃ entered, st.enterLine (Cursor.ofLine line tabSize) = .ok entered := by
  have hblank : Text.leadingBlank line = [] := by
    cases line with
    | nil => rfl
    | cons d line => exact List.takeWhile_cons_of_neg (h d rfl)
  have hindentation : (Cursor.ofLine line tabSize).indentation = .ok 0 := by
    show Column.advance (Column.tabSize tabSize) 0 (Text.leadingBlank line) = .ok 0
    rw [hblank, Column.advance_nil]
  refine ⟨{ st.decideAlignment .hanging with indented := 0, atLineStart := true }, ?_⟩
  rw [enterLine, if_pos (show (Cursor.ofLine line tabSize).atLineStart from rfl), hindentation]
  rfl

/-- A line is one token exactly if it is one lexeme. -/
theorem lexeme_of_tokenizeLine_singleton {t : Token}
    (h : st.tokenizeLine config w = .ok ([t], final)) :
    Lexeme config.extraAtoms st.pending w [] t.category final.pending := by
  obtain ⟨pieces, hplace, hpieces⟩ := segmentation_of_tokenizeLine h
  generalize st.pending = pending, final.pending = after at hpieces ⊢
  cases hpieces with
  | done => cases hplace
  | lexeme first others =>
    obtain ⟨rfl, hothers⟩ := List.cons.inj hplace
    cases others with
    | done =>
      rw [List.append_nil]
      exact first
    | lexeme => cases hothers

/-- A word that may be configured is one token, which is a word. -/
theorem tokenizeLine_of_isBareAtom (config : Config) (hpending : st.pending = none)
    (h : Word.isBareAtom w) : ∃ final, st.tokenizeLine config w =
      .ok ([⟨Word.category config.extraAtoms w, 0, w⟩], final) := by
  have hw : Lexeme config.extraAtoms st.pending w [] (Word.category config.extraAtoms w) none := by
    rw [hpending]
    apply Lexeme.of_isBareAtom config.extraAtoms h
    intro d hd
    cases hd
  have hvisible : ∀ d, (w ++ []).head? = some d → ¬ Text.isBlank d := by
    obtain ⟨initial, others, rfl⟩ := List.exists_cons_of_ne_nil hw.ne_nil
    intro d hd
    obtain rfl := Option.some.inj hd
    obtain ⟨hword, -⟩ := Word.isAtomInitial_iff.mp (Word.isBareAtom_cons.mp h).1
    exact mt Alphabet.isBlank_iff.mp
      (Alphabet.not_mem_blanks.1 initial (Alphabet.isWordChar_iff.mp hword))
  obtain ⟨entered, hentered⟩ := exists_enterLine_of_not_isBlank hvisible config.tabSize st
  have hend : ((Cursor.ofLine (w ++ []) config.tabSize).forward w.length).rest = [] :=
    List.drop_left
  have hline := (tokenizeLine_append_eq_ok_iff hw).mpr
    ⟨entered, [], hentered, rfl, .done hend⟩
  rw [List.append_nil] at hline
  exact ⟨_, hline⟩

/-- **The words that may be configured are the lines of one token of word characters that is
neither a variable nor a singleton.** -/
theorem isBareAtom_iff_tokenizeLine (config : Config) (hpending : st.pending = none) :
    Word.isBareAtom w ↔ (∀ d ∈ w, Word.isWordChar d) ∧
      ∃ t final, st.tokenizeLine config w = .ok ([t], final) ∧
        (t.category = .keyword ∨ t.category = .builtin ∨ t.category = .atom) := by
  constructor
  · intro h
    obtain ⟨initial, others, rfl⟩ := List.exists_cons_of_ne_nil (Word.ne_nil_of_isBareAtom h)
    obtain ⟨hinitial, hothers⟩ := Word.isBareAtom_cons.mp h
    obtain ⟨final, hline⟩ := tokenizeLine_of_isBareAtom config hpending h
    refine ⟨?_, _, final, hline, ?_⟩
    · exact List.forall_mem_cons.mpr ⟨(Word.isAtomInitial_iff.mp hinitial).1, hothers⟩
    · show Word.category config.extraAtoms _ = _ ∨ _
      rw [Word.category_of_isAtomInitial config.extraAtoms hinitial]
      split
      · exact .inr (.inr rfl)
      · exact Word.reservedCategory_cases _
  · rintro ⟨hword, t, final, hline, hc⟩
    have hw := lexeme_of_tokenizeLine_singleton hline
    rw [hpending] at hw
    exact hw.isBareAtom_of_category hword hc

end State

/-! ## Tokens of a line -/

namespace Step

/-- The state behind steps, the first of which is taken in `st`. -/
def stateBehind (st : State) : List Step → State
  | [] => st
  | step :: steps => stateBehind step.state steps

end Step

namespace State

variable {config : Config} {st final : State} {line : Text} {offset : Nat}

/-- Every step through a line is taken in the state behind those before it. -/
theorem exists_tokenize_of_stepFrom {before behind : List Step} {step : Step}
    (h : st.stepFrom config line offset = .ok (before ++ step :: behind, final)) :
    ∃ start, start < Text.byteLength line ∧
      (Step.stateBehind st before).tokenize config line start = .ok step := by
  induction before generalizing st offset with
  | nil =>
    obtain ⟨hlt, hstep, -⟩ := stepFrom_eq_ok_cons h
    exact ⟨offset, hlt, hstep⟩
  | cons first before ih =>
    obtain ⟨-, -, hothers⟩ := stepFrom_eq_ok_cons h
    exact ih hothers

/-- It reads a lexeme. -/
theorem exists_lexeme_of_stepThrough {before behind : List Step} {step : Step}
    (h : st.stepThrough config line = .ok (before ++ step :: behind, final)) :
    ∃ rest, Lexeme config.extraAtoms (Step.stateBehind st before).pending step.text rest
      step.category step.state.pending := by
  by_cases hnil : line = []
  · subst hnil
    obtain ⟨hsteps, -⟩ := steps_eq_nil_of_stepThrough_nil h
    exact absurd hsteps (List.append_ne_nil_of_right_ne_nil before (List.cons_ne_nil step behind))
  · rw [stepThrough_of_ne_nil hnil] at h
    obtain ⟨start, hlt, hstep⟩ := exists_tokenize_of_stepFrom h
    obtain ⟨s, next, hne, hlexeme, -, ht, htext, -⟩ := exists_token_of_tokenize hlt hstep
    rw [htext]
    exact ⟨next.rest, lexeme_of_token hne hlexeme ht⟩

end State

/-! ## Configured atoms -/

namespace Config

open State

/-- With one extra atom and defaults otherwise, nothing but the extra atom can be wrong. -/
theorem check_singleton_eq_ok (order : WordSet.Enumeration) (w : Text) :
    check order { extraAtoms := .ofList [w] } = .ok { extraAtoms := .ofList [w] } ↔
      Word.isBareAtom w := by
  rw [check_eq_ok, fault?_eq_none]
  simp

/-- **The words that a configuration accepts as atoms are those that the lexer can meet.**  A word
is accepted exactly if it is not empty, made of word characters, and by default a line of one token
that is a keyword, a builtin or an atom.  And whatever the lines and the states, every token that is
spelled like an accepted word and begins with nothing pending is an atom; the word alone is a line
of this one token. -/
theorem extraAtoms_accepted_iff_lexed :
    (∀ (order : WordSet.Enumeration) (w : Text) (baseColumn : Nat),
      check order { extraAtoms := .ofList [w] } = .ok { extraAtoms := .ofList [w] } ↔
        w ≠ [] ∧ (∀ c ∈ w, Word.isWordChar c) ∧
        ∃ t final, (State.start baseColumn).tokenizeLine {} w = .ok ([t], final) ∧
          (t.category = .keyword ∨ t.category = .builtin ∨ t.category = .atom)) ∧
    ∀ (order : WordSet.Enumeration) (config : Config), config.check order = .ok config →
      ∀ w ∈ config.extraAtoms,
      (∀ line st tokens final, st.tokenizeLine config line = .ok (tokens, final) →
        ∃ steps, st.stepThrough config line = .ok (steps, final) ∧
          Step.tokensFrom 0 steps = tokens ∧
          ∀ before step behind, steps = before ++ step :: behind →
            (Step.stateBehind st before).pending = none → step.text = w →
              step.category = .atom) ∧
      ∀ st : State, st.pending = none →
        ∃ final, st.tokenizeLine config w = .ok ([⟨.atom, 0, w⟩], final) := by
  refine ⟨fun order w baseColumn => ?_, fun order config hcheck w hmem => ?_⟩
  · have hpending : (State.start baseColumn).pending = none := rfl
    rw [check_singleton_eq_ok, isBareAtom_iff_tokenizeLine {} hpending]
    refine ⟨fun h => ⟨?_, h⟩, And.right⟩
    exact Word.ne_nil_of_isBareAtom ((isBareAtom_iff_tokenizeLine {} hpending).mpr h)
  · have hbare : Word.isBareAtom w := (fault?_eq_none.mp (check_eq_ok.mp hcheck).2).2.2 w hmem
    have hatom : Word.category config.extraAtoms w = .atom :=
      Word.category_eq_atom_of_mem hbare hmem
    refine ⟨fun line st tokens final h => ?_, fun st hpending => ?_⟩
    · obtain ⟨⟨steps, last⟩, hsteps, heq⟩ :=
        Fault.map_eq_ok.mp ((tokensFrom_stepThrough config line st).trans h)
      obtain ⟨rfl, rfl⟩ := Prod.mk.inj heq
      refine ⟨steps, hsteps, rfl, ?_⟩
      rintro before step behind rfl hpending htext
      obtain ⟨rest, hlexeme⟩ := exists_lexeme_of_stepThrough hsteps
      rw [hpending, htext] at hlexeme
      rw [hlexeme.category_of_isBareAtom hbare, hatom]
    · have hline := tokenizeLine_of_isBareAtom config hpending hbare
      rw [hatom] at hline
      exact hline

/-- A comment that an earlier line began goes on with something pending; the word behind it does
not. -/
theorem extraAtoms_accepted_iff_lexed_resumed :
    let config : Config := { extraAtoms := .ofList ["load".toList, "$x_1".toList] }
    let st : State := ⟨some .blockComment, .ofBase 0, 0, false⟩
    config.check .ascending = .ok config ∧
      ∃ steps final, st.stepThrough config "*/load".toList = .ok (steps, final) ∧
        Step.tokensFrom 0 steps = [⟨.comment, 0, "*/".toList⟩, ⟨.atom, 2, "load".toList⟩] ∧
        ∀ before step behind, steps = before ++ step :: behind →
          (Step.stateBehind st before).pending = none → step.text = "load".toList →
            step.category = .atom := by
  intro config st
  have hcheck : config.check .ascending = .ok config := rfl
  obtain ⟨⟨tokens, final⟩, hline, htokens⟩ :=
    Fault.exists_eq_ok_of_any (x := st.tokenizeLine config "*/load".toList)
      (p := fun r => r.1 = [⟨.comment, 0, "*/".toList⟩, ⟨.atom, 2, "load".toList⟩])
      (by decide +kernel)
  obtain ⟨hlines, -⟩ :=
    extraAtoms_accepted_iff_lexed.2 .ascending config hcheck "load".toList (by decide +kernel)
  obtain ⟨steps, hsteps, hread, hatom⟩ := hlines _ st tokens final hline
  exact ⟨hcheck, steps, final, hsteps, hread.trans htokens, hatom⟩

end Config
end EditorMode
