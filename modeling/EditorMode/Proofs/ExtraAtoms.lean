import EditorMode.Proofs.Convergence
import EditorMode.Proofs.InStep

/-! # Extra atoms touch nothing but the reserved words

A host may configure words as atoms.  What this changes is the category of five words, and nothing
else: the tokens have the same places, and since a word stays significant and is never punctuation,
the same contexts are open behind every token.  The two runs are in step, line by line
(`State.exists_recategorized_of_tokenizeLine`, `Document.exists_recategorized_of_readLines`).
Folds and suggested columns follow: the former look at punctuation only, the latter at states. -/

namespace EditorMode

/-! ## Lines under different atoms -/

/-- The same token under two sets of extra atoms. -/
structure Token.Recategorized (atoms atoms' : WordSet) (t t' : Token) : Prop where
  start_eq : t'.start = t.start
  text_eq : t'.text = t.text
  category : Word.Recategorized atoms atoms' t.text t.category t'.category

/-- The same line under two sets of extra atoms, with the same state behind it. -/
structure Document.Line.Recategorized (atoms atoms' : WordSet) (line line' : Document.Line) :
    Prop where
  text_eq : line'.text = line.text
  state_eq : line'.state = line.state
  tokens : List.Forall₂ (Token.Recategorized atoms atoms') line.tokens line'.tokens

namespace State

variable {config config' : Config} {st final : State} {line : Text} {tokens : List Token}

/-- In an empty line there is no word. -/
theorem tokenizeLine_nil_eq (htab : config'.tabSize = config.tabSize) (st : State) :
    st.tokenizeLine config' [] = st.tokenizeLine config [] := by
  rw [tokenizeLine, tokenizeLine, htab]
  rfl

/-- **A line under other atoms** has its tokens in other categories at most, and the same state
behind it. -/
theorem exists_recategorized_of_tokenizeLine (htab : config'.tabSize = config.tabSize)
    (h : st.tokenizeLine config line = .ok (tokens, final)) :
    ∃ tokens', st.tokenizeLine config' line = .ok (tokens', final) ∧
      List.Forall₂ (Token.Recategorized config.extraAtoms config'.extraAtoms) tokens tokens' := by
  by_cases hnil : line = []
  · subst hnil
    obtain ⟨rfl, -⟩ := tokens_eq_nil_of_tokenizeLine_nil h
    exact ⟨[], (tokenizeLine_nil_eq htab st).trans h, .nil⟩
  · rw [tokenizeLine_of_ne_nil hnil] at h ⊢
    rw [htab]
    have hsame : Cursor.InStep [] (Cursor.ofLine line config.tabSize)
        (Cursor.ofLine line config.tabSize) :=
      ⟨(List.append_nil _).symm, rfl, rfl, fun _ => rfl⟩
    obtain ⟨tokens', hrun, htokens⟩ := hsame.readsRest (readsRest_of_tokenizeRest h) config'
    refine ⟨tokens', tokenizeRest_eq_ok_iff.mpr hrun, htokens.imp fun t t' ht => ?_⟩
    obtain ⟨n, hn, hn'⟩ := ht.place
    exact ⟨hn'.trans hn.symm, ht.text_eq, ht.category⟩

end State

namespace Document

variable {config config' : Config} {atoms atoms' : WordSet} {st : State} {texts : List Text}
  {lines lines' : List Line}

/-- So have lines in order. -/
theorem exists_recategorized_of_readLines (htab : config'.tabSize = config.tabSize)
    (h : readLines config st texts = .ok lines) :
    ∃ lines', readLines config' st texts = .ok lines' ∧
      List.Forall₂ (Line.Recategorized config.extraAtoms config'.extraAtoms) lines lines' := by
  induction texts generalizing st lines with
  | nil =>
    obtain rfl := Except.ok.inj h
    exact ⟨[], rfl, .nil⟩
  | cons text texts ih =>
    obtain ⟨tokens, state, others, hline, hothers, rfl⟩ := readLines_cons_eq_ok_iff.mp h
    obtain ⟨tokens', hline', htokens⟩ := State.exists_recategorized_of_tokenizeLine htab hline
    obtain ⟨others', hothers', hall⟩ := ih hothers
    exact ⟨⟨text, tokens', state⟩ :: others',
      readLines_cons_eq_ok_iff.mpr ⟨tokens', state, others', hline', hothers', rfl⟩,
      .cons ⟨rfl, rfl, htokens⟩ hall⟩

/-- Both runs overflow together. -/
theorem readLines_eq_error (htab : config'.tabSize = config.tabSize) {fault : Fault}
    (h : readLines config st texts = .error fault) : readLines config' st texts = .error fault := by
  cases h' : readLines config' st texts with
  | error fault' =>
    rw [onlyOverflows_readLines config st texts fault h,
      onlyOverflows_readLines config' st texts fault' h']
  | ok lines' =>
    obtain ⟨lines, hlines, -⟩ := exists_recategorized_of_readLines htab.symm h'
    cases h.symm.trans hlines

/-! ## Folds -/

/-- A token that is a brace is the same under both sets. -/
theorem braceMark_eq {t t' : Token} (h : t.Recategorized atoms atoms' t') (n : Nat) :
    t.brace?.map (BraceMark.mk n t) = t'.brace?.map (BraceMark.mk n t') := by
  obtain ⟨category, start, text⟩ := t
  obtain ⟨category', start', text'⟩ := t'
  obtain ⟨rfl, rfl, hcategory⟩ := h
  cases hcategory with
  | same => rfl
  | onlyFirst _ _ hreserved => cases hreserved <;> rfl
  | onlySecond _ _ hreserved => cases hreserved <;> rfl

theorem bracesOf_eq {tokens tokens' : List Token}
    (h : List.Forall₂ (Token.Recategorized atoms atoms') tokens tokens') (n : Nat) :
    bracesOf n tokens = bracesOf n tokens' := by
  induction h with
  | nil => rfl
  | cons ht _ ih =>
    rw [bracesOf, bracesOf, List.filterMap_cons, List.filterMap_cons, braceMark_eq ht]
    rw [bracesOf, bracesOf] at ih
    rw [ih]

theorem bracesFrom_eq (h : List.Forall₂ (Line.Recategorized atoms atoms') lines lines') (n : Nat) :
    bracesFrom n lines = bracesFrom n lines' := by
  induction h generalizing n with
  | nil => rfl
  | cons hline _ ih => rw [bracesFrom, bracesFrom, bracesOf_eq hline.tokens, ih]

/-- **Folds do not depend on the atoms.** -/
theorem foldAt?_eq (h : List.Forall₂ (Line.Recategorized atoms atoms') lines lines') (st : State)
    (i : Nat) : foldAt? i ⟨st, lines⟩ = foldAt? i ⟨st, lines'⟩ := by
  have hlater := bracesFrom_eq (List.forall₂_drop (i + 1) h) (i + 1)
  have hdrop := List.forall₂_drop i h
  rw [foldAt?, foldAt?]
  dsimp only
  rw [hlater, ← List.head?_drop, ← List.head?_drop]
  generalize lines.drop i = below at hdrop
  generalize lines'.drop i = below' at hdrop
  cases hdrop with
  | nil => rfl
  | @cons line line' _ _ hline =>
    show (lastOpening? (bracesOf i line.tokens)).bind _ =
      (lastOpening? (bracesOf i line'.tokens)).bind _
    rw [bracesOf_eq hline.tokens]

/-- Nor do suggested columns, since the states are the same. -/
theorem indentAfter_eq {config : Config}
    (h : List.Forall₂ (Line.Recategorized config.extraAtoms atoms') lines lines') (i : Nat)
    (textAfter : Text) :
    indentAfter config i textAfter ⟨st, lines⟩ =
      indentAfter { config with extraAtoms := atoms' } i textAfter ⟨st, lines'⟩ := by
  have hdrop := List.forall₂_drop i h
  rw [indentAfter, indentAfter]
  dsimp only
  rw [← List.head?_drop, ← List.head?_drop]
  generalize lines.drop i = below at hdrop
  generalize lines'.drop i = below' at hdrop
  cases hdrop with
  | nil => rfl
  | @cons line line' _ _ hline =>
    show line.state.indent config textAfter = line'.state.indent _ textAfter
    rw [hline.state_eq]
    rfl

/-! ## Configuring an atom -/

/-- A token in a category of its own under one set only is a word in which the sets differ. -/
theorem lines_eq_of_forall₂ (h : List.Forall₂ (Line.Recategorized atoms atoms') lines lines')
    (hcategory : ∀ (w : Text) (c c' : Category), Word.Recategorized atoms atoms' w c c' → c = c') :
    lines = lines' := by
  have htoken : ∀ {t t' : Token}, t.Recategorized atoms atoms' t' → t = t' := by
    rintro ⟨c, start, w⟩ ⟨c', start', w'⟩ ⟨rfl, rfl, hc⟩
    obtain rfl : c = c' := hcategory _ c c' hc
    rfl
  have hline : ∀ {line line' : Line}, line.Recategorized atoms atoms' line' → line = line' := by
    rintro ⟨text, tokens, state⟩ ⟨text', tokens', state'⟩ ⟨rfl, rfl, htokens⟩
    obtain rfl : tokens = tokens' := List.forall₂_eq_eq_eq ▸ htokens.imp fun _ _ => htoken
    rfl
  exact List.forall₂_eq_eq_eq ▸ h.imp fun _ _ => hline

/-- **Extra atoms touch nothing but five words.**  Let lines be read from any state under two
configurations that differ in their extra atoms only.

* If they are read under one of them, they are read under the other one, with tokens at the same
  places and with the same state behind every line, hence with the same folds and suggested columns.
  A token is in another category only if it is a reserved word that is a member of one of the sets;
  it is an atom under this one, and a keyword or a builtin under the other one.
* If they overflow under one of them, they overflow under the other one.
* To configure a word that is not reserved changes nothing. -/
theorem extraAtoms_touch_reserved_words (config : Config) (atoms' : WordSet) (st : State)
    (texts : List Text) :
    let config' : Config := { config with extraAtoms := atoms' }
    (∀ lines, readLines config st texts = .ok lines →
      ∃ lines', readLines config' st texts = .ok lines' ∧
        List.Forall₂ (Line.Recategorized config.extraAtoms atoms') lines lines' ∧
        ∀ i, foldAt? i ⟨st, lines⟩ = foldAt? i ⟨st, lines'⟩ ∧
          ∀ textAfter, indentAfter config i textAfter ⟨st, lines⟩ =
            indentAfter config' i textAfter ⟨st, lines'⟩) ∧
    (∀ fault, readLines config st texts = .error fault →
      readLines config' st texts = .error fault) ∧
    ∀ w, (∀ v ∈ ["about", "main", "is", "load", "store"], w ≠ v.toList) →
      readLines { config with extraAtoms := config.extraAtoms.insert w } st texts =
        readLines config st texts := by
  intro config'
  have htab : config'.tabSize = config.tabSize := rfl
  refine ⟨fun lines h => ?_, fun fault h => readLines_eq_error htab h, fun w hw => ?_⟩
  · obtain ⟨lines', h', hlines⟩ := exists_recategorized_of_readLines htab h
    exact ⟨lines', h', hlines, fun i =>
      ⟨foldAt?_eq hlines st i, fun textAfter => indentAfter_eq hlines i textAfter⟩⟩
  · generalize hwith : config.extraAtoms.insert w = more
    have htabWith : { config with extraAtoms := more }.tabSize = config.tabSize := rfl
    have hcategory : ∀ (v : Text) (c c' : Category),
        Word.Recategorized config.extraAtoms more v c c' → c = c' := by
      intro v c c' h
      by_cases heq : v = w
      · subst heq
        exact h.eq_of_not_reserved hw
      · refine h.eq_of_mem_iff ?_
        rw [← hwith, WordSet.mem_insert, or_iff_right heq]
    cases h : readLines config st texts with
    | error fault => exact readLines_eq_error htabWith h
    | ok lines =>
      obtain ⟨lines', h', hlines⟩ := exists_recategorized_of_readLines htabWith h
      rw [h', lines_eq_of_forall₂ hlines hcategory]

end Document
end EditorMode
