import Mathlib.Data.List.Forall2
import EditorMode.Proofs.Segmentation

/-! # Two runs in step

Of all that surrounds a token, what it does to the state depends on three things only: the column
where it begins, whether the line is entered there, and the lexeme.  Two runs from the same state
therefore stay in the same state, token by token, as long as they find the same lexemes at the same
columns.  The cursors may differ in what they have read before and in the offsets that go with it,
the second run may have more text in front of it, and the runs may have different extra atoms:
reserved words are then in different categories, but every lexeme that acts on the contexts under
one set of atoms does the same under the other (`Lexeme.exists_recategorized`).

`Cursor.InStep` is the relation between the cursors.  One step keeps it (`Cursor.InStep.token`),
and so does the run over the rest of the line (`Cursor.InStep.readsRest`). -/

namespace EditorMode

/-! ## Words under different atoms -/

namespace Word

/-- A reserved word, with the category that it has unless it is configured as an atom. -/
inductive IsReserved : Text → Category → Prop where
  | keyword {w : String} (hw : w ∈ ["about", "main", "is"]) : IsReserved w.toList .keyword
  | builtin {w : String} (hw : w ∈ ["load", "store"]) : IsReserved w.toList .builtin

/-- **The categories of a word under two sets of extra atoms.**  They are the same, unless the word
is reserved and a member of one set only; then it is an atom under this one. -/
inductive Recategorized (atoms atoms' : WordSet) (w : Text) : Category → Category → Prop where
  | same {c : Category} : Recategorized atoms atoms' w c c
  | onlyFirst {c : Category} (hmem : w ∈ atoms) (hmem' : w ∉ atoms') (hreserved : IsReserved w c) :
      Recategorized atoms atoms' w .atom c
  | onlySecond {c : Category} (hmem : w ∉ atoms) (hmem' : w ∈ atoms') (hreserved : IsReserved w c) :
      Recategorized atoms atoms' w c .atom

/-- There are five reserved words. -/
theorem IsReserved.exists_eq {w : Text} {c : Category} (h : IsReserved w c) :
    ∃ v ∈ ["about", "main", "is", "load", "store"], w = v.toList := by
  cases h with
  | @keyword v hw => exact ⟨v, List.mem_append_left ["load", "store"] hw, rfl⟩
  | @builtin v hw => exact ⟨v, List.mem_append_right ["about", "main", "is"] hw, rfl⟩

theorem isReserved_reservedCategory {w : Text} (h : reservedCategory w ≠ .atom) :
    IsReserved w (reservedCategory w) := by
  rw [reservedCategory] at h ⊢
  split
  · rename_i hkeyword
    obtain ⟨w, hw, rfl⟩ := contains_keywords.mp hkeyword
    exact .keyword hw
  · rename_i hkeyword
    rw [if_neg hkeyword] at h
    split
    · rename_i hbuiltin
      obtain ⟨w, hw, rfl⟩ := contains_builtins.mp hbuiltin
      exact .builtin hw
    · rename_i hbuiltin
      rw [if_neg hbuiltin] at h
      exact absurd rfl h

/-- The sets decide only about words that begin neither like a variable nor like a singleton. -/
theorem recategorized_category (atoms atoms' : WordSet) (w : Text) :
    Recategorized atoms atoms' w (category atoms w) (category atoms' w) := by
  cases w with
  | nil => exact .same
  | cons initial others =>
    by_cases hunder : initial = '_'
    · subst hunder
      cases others with
      | nil => exact .same
      | cons c others => exact .same
    by_cases hupper : initial.isUpper
    · rw [category_of_isUpper hupper, category_of_isUpper hupper]
      exact .same
    rw [category_of_not_isUpper hunder hupper, category_of_not_isUpper hunder hupper]
    by_cases hatom : reservedCategory (initial :: others) = .atom
    · rw [hatom, ite_self, ite_self]
      exact .same
    have hreserved := isReserved_reservedCategory hatom
    by_cases hmem : initial :: others ∈ atoms
    · by_cases hmem' : initial :: others ∈ atoms'
      · rw [if_pos hmem, if_pos hmem']
        exact .same
      · rw [if_pos hmem, if_neg hmem']
        exact .onlyFirst hmem hmem' hreserved
    · by_cases hmem' : initial :: others ∈ atoms'
      · rw [if_neg hmem, if_pos hmem']
        exact .onlySecond hmem hmem' hreserved
      · rw [if_neg hmem, if_neg hmem']
        exact .same

namespace Recategorized

variable {atoms atoms' : WordSet} {w : Text} {c c' : Category}

/-- Where the sets agree about the word, so do the categories. -/
theorem eq_of_mem_iff (h : Recategorized atoms atoms' w c c') (hmem : w ∈ atoms ↔ w ∈ atoms') :
    c = c' := by
  cases h with
  | same => rfl
  | onlyFirst hin hout _ => exact absurd (hmem.mp hin) hout
  | onlySecond hout hin _ => exact absurd (hmem.mpr hin) hout

/-- Where the word is not reserved, they do so too. -/
theorem eq_of_not_reserved (h : Recategorized atoms atoms' w c c')
    (hw : ∀ v ∈ ["about", "main", "is", "load", "store"], w ≠ v.toList) : c = c' := by
  have hnot : ∀ c, ¬ IsReserved w c := by
    intro c hreserved
    obtain ⟨v, hv, heq⟩ := hreserved.exists_eq
    exact hw v hv heq
  cases h with
  | same => rfl
  | onlyFirst _ _ hreserved => exact absurd hreserved (hnot _)
  | onlySecond _ _ hreserved => exact absurd hreserved (hnot _)

/-- **No word crosses to the comments or to the punctuation.** -/
theorem acts_alike (h : Recategorized atoms atoms' w c c') :
    c.isSignificant = c'.isSignificant ∧ Lexeme.mark? c w = Lexeme.mark? c' w := by
  cases h with
  | same => exact ⟨rfl, rfl⟩
  | onlyFirst _ _ hreserved =>
    cases hreserved with
    | keyword => exact ⟨rfl, rfl⟩
    | builtin => exact ⟨rfl, rfl⟩
  | onlySecond _ _ hreserved =>
    cases hreserved with
    | keyword => exact ⟨rfl, rfl⟩
    | builtin => exact ⟨rfl, rfl⟩

end Recategorized
end Word

/-- **A lexeme is one under any atoms**, in a category that acts alike. -/
theorem Lexeme.exists_recategorized {atoms : WordSet} {pending after : Option Construct}
    {w rest : Text} {c : Category} (h : Lexeme atoms pending w rest c after) (atoms' : WordSet) :
    ∃ c', Lexeme atoms' pending w rest c' after ∧ Word.Recategorized atoms atoms' w c c' := by
  cases h with
  | resumed hne h => exact ⟨_, .resumed hne h, .same⟩
  | blank hne hrun => exact ⟨_, .blank hne hrun, .same⟩
  | string hquote h => exact ⟨_, .string hquote h, .same⟩
  | punctuation hc => exact ⟨_, .punctuation hc, .same⟩
  | number hdigit hrun => exact ⟨_, .number hdigit hrun, .same⟩
  | blockComment h => exact ⟨_, .blockComment h, .same⟩
  | lineComment => exact ⟨_, .lineComment, .same⟩
  | @word initial others rest c hblank hquote hpunctuation hdigit hslash hrun hcategory =>
    refine ⟨Word.category atoms' (initial :: others), ?_, ?_⟩
    · exact .word hblank hquote hpunctuation hdigit hslash hrun
        (Word.hasCategory_category atoms' initial others)
    · rw [← Word.category_of_hasCategory hcategory]
      exact Word.recategorized_category atoms atoms' (initial :: others)

/-! ## One token -/

namespace State

variable {config : Config} {s next : Cursor} {st final : State} {c : Category}

/-- A token takes its text from the rest of the line, and its bytes are added to the position. -/
theorem piece_of_token (hne : s.rest ≠ []) (hlexeme : s.lexeme = [])
    (h : st.token config s = .ok (c, next, final)) :
    s.rest = next.lexeme ++ next.rest ∧ next.pos = s.pos + Text.byteLength next.lexeme := by
  obtain ⟨read, -, hrest, hnext⟩ := movesOnTo_of_token hne h
  have hread : next.lexeme = read := by
    rw [hnext, hlexeme]
    rfl
  have hstart : next.start = s.start := by rw [hnext]
  refine ⟨?_, ?_⟩
  · rw [hread]
    exact hrest
  · rw [Cursor.pos, Cursor.pos, hstart, hlexeme, Text.byteLength_nil, Nat.add_zero]

/-- Of what has been read, the state behind it depends only on whether it is significant, on the
mark and on what is pending. -/
theorem afterReading_congr {r r' : Reading} (column : Nat) (st : State)
    (hsignificant : r.category.isSignificant = r'.category.isSignificant)
    (hmark : r.mark = r'.mark) (hpending : r.pending = r'.pending) :
    st.afterReading column r = st.afterReading column r' := by
  rw [afterReading, afterReading, hsignificant, hmark, hpending]

end State

/-! ## Cursors in step -/

/-- The second cursor has the same to read as the first one, and `more` behind it; their next tokens
begin at the same column, and there the line is entered alike. -/
structure Cursor.InStep (more : Text) (s s' : Cursor) : Prop where
  rest_eq : s'.rest = s.rest ++ more
  tabSize_eq : s'.tabSize = s.tabSize
  column_eq : Column.advance s'.tabSize s'.column s'.lexeme =
    Column.advance s.tabSize s.column s.lexeme
  enterLine_eq : ∀ st : State, st.enterLine s' = st.enterLine s

namespace Cursor.InStep

variable {config config' : Config} {more : Text} {s s' t next : Cursor} {st st' final : State}
  {c c' : Category} {tokens : List Token}

/-- They stay so when their next tokens start. -/
theorem startToken (h : InStep more s s') (hs : s.startToken = .ok t) :
    ∃ t', s'.startToken = .ok t' ∧ InStep more t t' ∧ t'.column = t.column := by
  obtain ⟨column, hcolumn, rfl⟩ := startToken_eq_ok_iff.mp hs
  have hs' := startToken_eq_ok_iff.mpr ⟨column, h.column_eq.trans hcolumn, rfl⟩
  refine ⟨_, hs', ⟨h.rest_eq, h.tabSize_eq, rfl, fun st => ?_⟩, rfl⟩
  rw [State.enterLine_startToken hs, State.enterLine_startToken hs', h.enterLine_eq]

/-- **One step of both runs.**  If the lexeme is the same, with the rest of the second run behind it
and up to the category of a word, the second run reads it too and comes to the same state. -/
theorem token (h : InStep more s s') (hlexeme : s.lexeme = []) (hlexeme' : s'.lexeme = [])
    (hcolumn : s'.column = s.column) (hne : s.rest ≠ [])
    (ht : st.token config s = .ok (c, next, st'))
    (hw : Lexeme config'.extraAtoms st.pending next.lexeme (next.rest ++ more) c' st'.pending)
    (hcategory : Word.Recategorized config.extraAtoms config'.extraAtoms next.lexeme c c') :
    ∃ next', st.token config' s' = .ok (c', next', st') ∧ InStep more next next' ∧
      next.lexeme ≠ [] ∧ next'.lexeme = next.lexeme := by
  obtain ⟨entered, w, rest, after, hentered, hrest, -, rfl, rfl⟩ :=
    (State.token_eq_ok_iff hne hlexeme).mp ht
  have hrest' : s'.rest = w ++ (rest ++ more) := by
    rw [h.rest_eq, hrest, List.append_assoc]
  obtain ⟨hread, hleft⟩ := lexeme_rest_forward hlexeme hrest
  obtain ⟨hread', hleft'⟩ := lexeme_rest_forward hlexeme' hrest'
  rw [hread, hleft, State.pending_afterReading] at hw
  rw [hread] at hcategory
  obtain ⟨hsignificant, hmark⟩ := hcategory.acts_alike
  have hnonempty : (s.forward w.length).lexeme ≠ [] := by
    rw [hread]
    exact hw.ne_nil
  have hnonempty' : (s'.forward w.length).lexeme ≠ [] := by
    rw [hread']
    exact hw.ne_nil
  have hne' : s'.rest ≠ [] := by
    rw [hrest']
    exact List.append_ne_nil_of_left_ne_nil hw.ne_nil _
  refine ⟨s'.forward w.length, ?_, ⟨?_, h.tabSize_eq, ?_, fun st => ?_⟩, hnonempty, ?_⟩
  · refine (State.token_eq_ok_iff hne' hlexeme').mpr
      ⟨entered, w, rest ++ more, after, (h.enterLine_eq st).trans hentered, hrest', hw, rfl, ?_⟩
    rw [hcolumn]
    exact State.afterReading_congr s.column entered hsignificant hmark rfl
  · rw [hleft, hleft']
  · rw [hread, hread']
    show Column.advance s'.tabSize s'.column w = Column.advance s.tabSize s.column w
    rw [h.tabSize_eq, hcolumn]
  · rw [State.enterLine_of_lexeme hnonempty, State.enterLine_of_lexeme hnonempty']
  · rw [hread, hread']

end Cursor.InStep

/-! ## Runs in step -/

/-- The tokens have the same text and stand equally far behind the places `pos` and `pos'`.  Their
categories are those of a word under two sets of extra atoms. -/
structure Token.InStep (atoms atoms' : WordSet) (pos pos' : Nat) (t t' : Token) : Prop where
  place : ∃ n, t.start = pos + n ∧ t'.start = pos' + n
  text_eq : t'.text = t.text
  category : Word.Recategorized atoms atoms' t.text t.category t'.category

/-- **The run over the rest of a line**, by induction on its tokens.  From cursors in step and the
same state, the second run has the tokens of the first one and ends in the same state. -/
theorem Cursor.InStep.readsRest {config : Config} {s s' : Cursor} {st final : State}
    {tokens : List Token} (hstep : Cursor.InStep [] s s')
    (h : State.ReadsRest config s st tokens final) (config' : Config) :
    ∃ tokens', State.ReadsRest config' s' st tokens' final ∧
      List.Forall₂ (Token.InStep config.extraAtoms config'.extraAtoms s.pos s'.pos)
        tokens tokens' := by
  induction h generalizing s' with
  | @done s st hnil =>
    refine ⟨[], .done ?_, .nil⟩
    rw [hstep.rest_eq, hnil, List.append_nil]
  | @token s started next st st' final c tokens hne hs ht tail ih =>
    obtain ⟨started', hs', hstarted, hcolumn⟩ := hstep.startToken hs
    have hlexeme := Cursor.lexeme_startToken hs
    have hlexeme' := Cursor.lexeme_startToken hs'
    have hrest : started.rest ≠ [] := Cursor.rest_startToken hs ▸ hne
    have hrest' : s'.rest ≠ [] := by
      rw [hstep.rest_eq, List.append_nil]
      exact hne
    have hw := State.lexeme_of_token hrest hlexeme ht
    obtain ⟨c', hw', hcategory⟩ := hw.exists_recategorized config'.extraAtoms
    rw [← List.append_nil next.rest] at hw'
    obtain ⟨next', ht', hnext, -, hread⟩ :=
      hstarted.token hlexeme hlexeme' hcolumn hrest ht hw' hcategory
    obtain ⟨tokens', tail', hothers⟩ := ih hnext
    refine ⟨⟨c', s'.pos, next'.lexeme⟩ :: tokens', .token hrest' hs' ht' tail', .cons ?_ ?_⟩
    · exact ⟨⟨0, rfl, rfl⟩, hread, hcategory⟩
    · -- the offsets behind the token are counted on from the offsets before it
      obtain ⟨-, hpos⟩ := State.piece_of_token hrest hlexeme ht
      obtain ⟨-, hpos'⟩ := State.piece_of_token (Cursor.rest_startToken hs' ▸ hrest') hlexeme' ht'
      rw [State.pos_startToken hs] at hpos
      rw [State.pos_startToken hs', hread] at hpos'
      refine hothers.imp fun t t' ht => ⟨?_, ht.text_eq, ht.category⟩
      obtain ⟨n, hn, hn'⟩ := ht.place
      refine ⟨Text.byteLength next.lexeme + n, ?_, ?_⟩
      · omega
      · omega

end EditorMode
