import EditorMode.Indent
import EditorMode.Proofs.Nesting
import EditorMode.Proofs.WellFormed

/-! # What a significant token does

`State.follow` closes statements in loops and looks at the top of the stack only.  On the stack of a
document this comes down to three cases, and `State.Effect` lists them with all that they do to the
contexts and to the current indentation:

* a context is opened on the stack;
* **one** bracket is closed, together with the statement in it and, for braces, the statement that
  they belong to, and its base indent is restored;
* no bracket is closed, and at most statements end.

A bracket is closed exactly if it is the context by which a new line beginning with the same
character would be placed (`ContextStack.deciding`).  `effect_follow` and `effect_token` are the
places where the rules of `follow` are taken apart; what holds along a run is derived from them. -/

namespace EditorMode

/-- The kind of context that a significant token may open. -/
def Context.Kind.ofMark? : Option Char → Option Context.Kind
  | none => some .statement
  | some c => ofOpener? c

/-- A character that opens a bracket is not blank and closes none. -/
theorem Context.Kind.not_isBlank_of_ofOpener? {c : Char} {kind : Context.Kind}
    (h : ofOpener? c = some kind) :
    ¬ Text.isBlank c ∧ ∀ other : Context.Kind, other.closer? ≠ some c := by
  unfold ofOpener? at h
  split at h
  · exact ⟨by decide, fun other => by cases other <;> nofun⟩
  · exact ⟨by decide, fun other => by cases other <;> nofun⟩
  · exact ⟨by decide, fun other => by cases other <;> nofun⟩
  · cases h

/-- What has a closer is a bracket. -/
theorem Context.Kind.isBracket_of_closer? {kind : Context.Kind} {c : Char}
    (h : kind.closer? = some c) : kind.isBracket := by
  rw [isBracket, h]
  rfl

theorem Context.Kind.ne_of_isBracket {kind : Context.Kind} (h : kind.isBracket) :
    kind ≠ .top ∧ kind ≠ .statement := by
  constructor
  · rintro rfl
    cases h
  · rintro rfl
    cases h

namespace ContextStack

variable {s : ContextStack}

theorem dropStatements_of_ne (h : s.top.kind ≠ .statement) : s.dropStatements = s := by
  cases s with
  | root c => rfl
  | push c below => exact if_neg h

/-- Only for a closing brace is a context other than the innermost one looked at. -/
theorem deciding_eq_top {first : Option Char} (h : ¬ (s.top.kind = .statement ∧ first = some '}')) :
    s.deciding first = s.top :=
  if_neg h

theorem deciding_closingBrace {c : Context} (h : c.kind = .statement) :
    (s.push c).deciding (some '}') = s.top :=
  if_pos ⟨h, rfl⟩

theorem baseIndent_top_decideAlignment (a : Context.Alignment) (s : ContextStack) :
    (s.decideAlignment a).top.baseIndent = s.top.baseIndent := by
  rw [decideAlignment]
  split
  · cases s <;> rfl
  · rfl

theorem top_mem_toList (s : ContextStack) : s.top ∈ s.toList :=
  List.mem_of_head? s.head?_toList

theorem decideAlignment_push (a : Context.Alignment) (c : Context) (below : ContextStack) :
    (below.push c).decideAlignment a =
      below.push { c with alignment := if c.alignment = .undecided then a else c.alignment } := by
  rw [decideAlignment]
  show (if c.alignment = .undecided then _ else _) = _
  split
  · rfl
  · rfl

/-- Deciding an alignment changes nothing else about the contexts. -/
theorem exists_mem_of_mem_decideAlignment {a : Context.Alignment} {c : Context}
    (h : c ∈ (s.decideAlignment a).toList) :
    ∃ d ∈ s.toList, c = { d with alignment := c.alignment } := by
  rw [decideAlignment] at h
  split at h
  · cases s with
    | root d =>
      obtain rfl := List.mem_singleton.mp h
      exact ⟨d, List.mem_cons_self, rfl⟩
    | push d below =>
      rcases List.mem_cons.mp h with rfl | hbelow
      · exact ⟨d, List.mem_cons_self, rfl⟩
      · exact ⟨c, List.mem_cons_of_mem d hbelow, rfl⟩
  · exact ⟨c, h, rfl⟩

/-- Deciding the alignment of a stack where it has been decided does nothing. -/
theorem decideAlignment_of_decided (a : Context.Alignment) (h : s.top.alignment ≠ .undecided) :
    s.decideAlignment a = s :=
  if_neg h

/-- To decide that an alignment is undecided does nothing. -/
theorem decideAlignment_undecided (s : ContextStack) :
    s.decideAlignment .undecided = s := by
  rw [decideAlignment]
  split
  · rename_i h
    have hsame (c : Context) (hc : c.alignment = .undecided) :
        { c with alignment := .undecided } = c := by
      rw [← hc]
    cases s with
    | root c => exact congrArg root (hsame c h)
    | push c below => exact congrArg (push · below) (hsame c h)
  · rfl

end ContextStack

namespace State

/-- **What a significant token at `column` can do**, the innermost alignment having been decided.
`mark` is the token's character if it is punctuation. -/
inductive Effect (column : Nat) (mark : Option Char) (st st' : State) : Prop where
  /-- It opens a context: a bracket anywhere, a statement on the document or between braces. -/
  | opens {kind : Context.Kind} (hmark : Context.Kind.ofMark? mark = some kind)
      (hstatement : kind = .statement → st.stack.top.kind = .top ∨ st.stack.top.kind = .brace)
      (hstack : st'.stack = (st.push column kind).stack) (hindented : st'.indented = st.indented)
  /-- It closes a bracket with all that has been begun in it; with braces also ends the statement
  that they belong to. -/
  | closes {c : Char} {ended : List Context} {bracket : Context} {outer : ContextStack}
      (hmark : mark = some c) (hcloser : bracket.kind.closer? = some c)
      (hdeciding : st.stack.deciding mark = bracket)
      (hlist : st.stack.toList = ended ++ bracket :: outer.toList)
      (hended : ∀ ctx ∈ ended, ctx.kind = .statement)
      (hstack : st'.stack = if bracket.kind = .brace then outer.dropStatements else outer)
      (hindented : st'.indented = bracket.baseIndent)
  /-- It ends statements at most.  It is no opening bracket, a statement is not begun inside another
  one, in parentheses or in square brackets, and no bracket is closed, not even the one by which a
  line beginning with the token would be placed. -/
  | ends {ended : List Context} (hlist : st.stack.toList = ended ++ st'.stack.toList)
      (hended : ∀ ctx ∈ ended, ctx.kind = .statement)
      (hmark : ∀ kind, Context.Kind.ofMark? mark = some kind →
        kind = .statement ∧ st.stack.top.kind ≠ .top ∧ st.stack.top.kind ≠ .brace)
      (hopen : ∀ c, mark = some c → (st.stack.deciding mark).kind.closer? ≠ some c)
      (hindented : st'.indented = st.indented)

/-- Of an effect, which contexts and which indentation are recorded: a context is opened, or what is
left has been open before. -/
theorem Effect.opens_or_leaves {column : Nat} {mark : Option Char} {st st' : State}
    (h : Effect column mark st st') :
    (∃ kind, Context.Kind.ofMark? mark = some kind ∧ st'.stack = (st.push column kind).stack ∧
        st'.indented = st.indented) ∨
      (st'.stack.toList <:+ st.stack.toList ∧ (st'.indented = st.indented ∨
        ∃ bracket ∈ st.stack.toList,
          bracket.kind.isBracket ∧ st'.indented = bracket.baseIndent)) := by
  cases h with
  | @opens kind hmark hstatement hstack hindented => exact .inl ⟨kind, hmark, hstack, hindented⟩
  | @closes c ended bracket outer hmark hcloser hdeciding hlist hended hstack hindented =>
    have houter : outer.toList <:+ st.stack.toList := by
      rw [hlist]
      exact (List.suffix_cons bracket outer.toList).trans (List.suffix_append ended _)
    have hbracket : bracket ∈ st.stack.toList := by
      rw [hlist]
      exact List.mem_append_right ended List.mem_cons_self
    refine .inr ⟨?_, .inr ⟨bracket, hbracket, Context.Kind.isBracket_of_closer? hcloser, hindented⟩⟩
    rw [hstack]
    split
    · obtain ⟨dropped, hdropped, -⟩ := outer.toList_dropStatements
      exact List.IsSuffix.trans ⟨dropped, hdropped.symm⟩ houter
    · exact houter
  | @ends ended hlist hended hmark hopen hindented =>
    exact .inr ⟨⟨ended, hlist.symm⟩, .inl hindented⟩

variable {baseColumn column : Nat} {st : State}

/-- Closing a context takes it off the stack and, if it is a bracket, restores its base indent. -/
theorem pop_of_push {c : Context} {below : ContextStack} (hs : st.stack = .push c below) :
    st.pop = { st with stack := below,
                       indented := if c.kind.isBracket then c.baseIndent else st.indented } := by
  rw [pop, pop?, hs]
  rfl

theorem popKind_of_ne {kind : Context.Kind} (h : st.stack.top.kind ≠ kind) :
    st.popKind kind = st :=
  if_neg h

/-! ## Closing brackets -/

/-- A mark that opens nothing leaves stack and indentation alone, where it finds no bracket of its
own. -/
theorem effect_refl {c : Char} (hopener : Context.Kind.ofOpener? c = none)
    (hopen : (st.stack.deciding (some c)).kind.closer? ≠ some c) :
    Effect column (some c) st st := by
  refine .ends (List.nil_append _).symm (List.forall_mem_nil _) (fun kind hkind => ?_)
    (fun d hd => ?_) rfl
  · cases hopener.symm.trans hkind
  · obtain rfl := Option.some.inj hd
    exact hopen

/-- Braces that stand under ended statements are closed. -/
theorem effect_closes_brace {st' : State} {ended : List Context} {brace : Context}
    {outer : ContextStack} (hbrace : brace.kind = .brace)
    (hdeciding : st.stack.deciding (some '}') = brace)
    (hlist : st.stack.toList = ended ++ brace :: outer.toList)
    (hended : ∀ ctx ∈ ended, ctx.kind = .statement) (hst' : st'.stack = outer.push brace) :
    Effect column (some '}') st (st'.popKind .brace).dropStatements := by
  have hpop : st'.popKind .brace = st'.pop := by
    rw [popKind, hst']
    exact if_pos hbrace
  have hbracket : brace.kind.isBracket := by
    rw [hbrace]
    rfl
  refine .closes (c := '}') rfl (by rw [hbrace]; rfl) hdeciding hlist hended ?_ ?_
  · rw [hpop, pop_of_push hst', if_pos hbrace]
    rfl
  · rw [hpop, pop_of_push hst']
    exact if_pos hbracket

/-- **A closing brace** closes the innermost braces, unless another bracket has been opened in
them. -/
theorem effect_closeBrace (h : Nested baseColumn st.stack) :
    Effect column (some '}') st ((st.dropStatements.popKind .brace).dropStatements) := by
  have hdropped : st.dropStatements.stack = st.stack.dropStatements := rfl
  generalize hs : st.stack = stack at h hdropped
  cases h with
  | root =>
    have hroot : st.dropStatements.popKind .brace = st.dropStatements := by
      apply popKind_of_ne
      rw [hdropped]
      intro hkind
      cases hkind
    rw [hroot]
    refine .ends ?_ (List.forall_mem_nil _) ?_ ?_ rfl
    · show st.stack.toList = st.stack.dropStatements.dropStatements.toList
      rw [hs]
      rfl
    · intro kind hkind
      cases hkind
    · rw [hs]
      intro c hc hcloser
      cases hcloser
  | @push c below h hc =>
    by_cases hstatement : c.kind = .statement
    · -- the statement ends, and what is under it decides
      have hunder : below.top.kind = .top ∨ below.top.kind = .brace := hc.kind_below hstatement
      have hbelow : below.dropStatements = below :=
        ContextStack.dropStatements_of_ne (hc.kind_below_ne hstatement)
      have hdeciding : st.stack.deciding (some '}') = below.top := by
        rw [hs]
        exact ContextStack.deciding_closingBrace hstatement
      have hended : ∀ ctx ∈ [c], ctx.kind = .statement := by simpa using hstatement
      rw [ContextStack.dropStatements, if_pos hstatement, hbelow] at hdropped
      cases h with
      | root =>
        have hroot : st.dropStatements.popKind .brace = st.dropStatements := by
          apply popKind_of_ne
          rw [hdropped]
          intro hkind
          cases hkind
        rw [hroot]
        refine .ends ?_ hended ?_ ?_ rfl
        · show st.stack.toList = [c] ++ (st.dropStatements.stack.dropStatements).toList
          rw [hdropped, hs]
          rfl
        · intro kind hkind
          cases hkind
        · rw [hdeciding]
          intro c hc hcloser
          cases hcloser
      | @push d outer h hd =>
        have hbrace : d.kind = .brace := hunder.resolve_left hd.kind_ne_top
        refine effect_closes_brace hbrace hdeciding ?_ hended hdropped
        rw [hs]
        rfl
    · -- no statement ends, and the innermost context itself decides
      have htop : (below.push c).top.kind ≠ .statement := hstatement
      have hself : st.dropStatements = st := by
        rw [State.dropStatements, hs, ContextStack.dropStatements_of_ne htop, ← hs]
      have hdeciding : st.stack.deciding (some '}') = c := by
        rw [hs]
        exact ContextStack.deciding_eq_top fun hboth => hstatement hboth.1
      rw [hself]
      by_cases hbrace : c.kind = .brace
      · refine effect_closes_brace hbrace hdeciding ?_ (List.forall_mem_nil _) hs
        rw [hs]
        rfl
      · have hother : st.stack.top.kind ≠ .brace := by
          rw [hs]
          exact hbrace
        rw [popKind_of_ne hother, hself]
        apply effect_refl rfl
        rw [hdeciding]
        have hclosesBrace : Context.Kind.brace.closer? = some '}' := rfl
        exact fun hcloser => hbrace ((Context.Kind.closer?_eq_some_iff hclosesBrace).mp hcloser)

/-- **Any other closer** closes the innermost context if that is its own. -/
theorem effect_closer {c : Char} (h : Nested baseColumn st.stack)
    (hopener : Context.Kind.ofOpener? c = none) (hc : c ≠ '}') :
    Effect column (some c) st
      (if st.stack.top.kind.closer? = some c then st.pop else st) := by
  have hdeciding : st.stack.deciding (some c) = st.stack.top := by
    apply ContextStack.deciding_eq_top
    rintro ⟨-, heq⟩
    exact hc (Option.some.inj heq)
  split
  · rename_i hcloser
    generalize hs : st.stack = stack at h hcloser hdeciding
    cases h with
    | root => cases hcloser
    | @push bracket outer h hbracket =>
      have hkind : bracket.kind.closer? = some c := hcloser
      have hisBracket := Context.Kind.isBracket_of_closer? hkind
      have hbrace : bracket.kind ≠ .brace := by
        intro heq
        rw [heq] at hkind
        exact hc (Option.some.inj hkind).symm
      have hlist : st.stack.toList = [] ++ bracket :: outer.toList := by
        rw [hs]
        rfl
      refine .closes rfl hkind (hs ▸ hdeciding) hlist (List.forall_mem_nil _) ?_ ?_
      · rw [pop_of_push hs, if_neg hbrace]
      · rw [pop_of_push hs]
        exact if_pos hisBracket
  · rename_i hcloser
    apply effect_refl hopener
    rw [hdeciding]
    exact hcloser

/-! ## Separators, openers and words -/

/-- A separator ends the statement on top, if there is one. -/
theorem effect_separator {c : Char} (h : Nested baseColumn st.stack)
    (hc : c = ';' ∨ c = ',' ∨ c = ':' ∨ c = '.') :
    Effect column (some c) st (st.popKind .statement) := by
  have hnoCloser (kind : Context.Kind) : kind.closer? ≠ some c := by
    rcases hc with rfl | rfl | rfl | rfl <;> cases kind <;> nofun
  have hopener : Context.Kind.ofOpener? c = none := by
    rcases hc with rfl | rfl | rfl | rfl <;> rfl
  by_cases hstatement : st.stack.top.kind = .statement
  · generalize hs : st.stack = stack at h hstatement
    cases h with
    | root => cases hstatement
    | @push ctx below h hctx =>
      have hkind : ctx.kind = .statement := hstatement
      have hpop : st.popKind .statement = st.pop := by
        rw [popKind, hs]
        exact if_pos hstatement
      rw [hpop]
      have hended : ∀ d ∈ [ctx], d.kind = .statement := by simpa using hkind
      refine .ends ?_ hended (fun kind hopens => ?_) (fun d hd => ?_) ?_
      · rw [hs, pop_of_push hs]
        rfl
      · cases hopener.symm.trans hopens
      · obtain rfl := Option.some.inj hd
        exact hnoCloser _
      · rw [pop_of_push hs, hkind]
        rfl
  · rw [popKind_of_ne hstatement]
    exact effect_refl hopener (hnoCloser _)

/-- **What a significant token does to the contexts.** -/
theorem effect_follow (column : Nat) (mark : Option Char) (h : Nested baseColumn st.stack) :
    Effect column mark (st.decideAlignment .aligned) (st.follow column mark) := by
  have hnested : Nested baseColumn (st.decideAlignment .aligned).stack :=
    h.decideAlignment .aligned
  unfold follow
  dsimp only
  generalize st.decideAlignment .aligned = decided at hnested
  split
  · split
    · rename_i htop
      exact .opens rfl (fun _ => .inl htop) rfl rfl
    · rename_i hbrace
      exact .opens rfl (fun _ => .inr hbrace) rfl rfl
    · rename_i htop hbrace
      refine .ends (List.nil_append _).symm (List.forall_mem_nil _) (fun kind hkind => ?_) nofun rfl
      exact ⟨(Option.some.inj hkind).symm, htop, hbrace⟩
  · exact effect_closeBrace hnested
  · rename_i c hc
    split
    · rename_i hseparator
      exact effect_separator hnested hseparator
    · split
      · rename_i kind hopener
        refine .opens hopener ?_ rfl rfl
        intro hstatement
        have hbracket := Context.Kind.isBracket_iff_exists_opener.mpr ⟨_, hopener⟩
        exact absurd hstatement (Context.Kind.ne_of_isBracket hbracket).2
      · rename_i hopener
        exact effect_closer hnested hopener hc

end State

/-! ## Marks -/

namespace Lexeme

variable {extraAtoms : WordSet} {pending after : Option Construct} {w rest : Text} {c : Category}

/-- A lexeme has a mark exactly if it is punctuation, and then is this character. -/
theorem mark?_eq_some_iff {d : Char} (h : Lexeme extraAtoms pending w rest c after) :
    mark? c w = some d ↔ c = .punctuation ∧ w = [d] := by
  by_cases hc : c = .punctuation
  · subst hc
    obtain ⟨e, -, rfl⟩ := h.exists_of_punctuation
    simp [mark?]
  · simp [mark?, hc]

theorem mark?_eq_none_iff (h : Lexeme extraAtoms pending w rest c after) :
    mark? c w = none ↔ c ≠ .punctuation := by
  constructor
  · rintro hnone rfl
    obtain ⟨e, -, rfl⟩ := h.exists_of_punctuation
    cases hnone
  · exact fun hc => if_neg hc

end Lexeme

namespace State

variable {baseColumn : Nat} {st st' : State}

/-! ## Tokens -/

theorem nested_enterLine {s : Cursor} {entered : State} (hnested : Nested baseColumn st.stack)
    (h : st.enterLine s = .ok entered) : Nested baseColumn entered.stack := by
  rcases stack_enterLine h with hstack | hstack
  · rw [hstack]
    exact hnested
  · rw [hstack]
    exact hnested.decideAlignment .hanging

/-- The first token of a line enters the line, and the others find the state as it is. -/
theorem eq_of_enterLine_of_standsAfter {s : Cursor} {before : Text} {entered : State}
    (hstands : s.StandsAfter before) (hlexeme : s.lexeme = []) (h : st.enterLine s = .ok entered) :
    (before = [] ∧ entered.stack = st.stack.decideAlignment .hanging ∧
        s.indentation = .ok entered.indented) ∨
      (before ≠ [] ∧ entered = st) := by
  have hstart : s.atLineStart ↔ before = [] := by
    rw [Cursor.atLineStart, beq_iff_eq, hstands.pos_eq, hlexeme, List.append_nil,
      Text.byteLength_eq_zero]
  rcases eq_of_enterLine h with ⟨hinside, rfl⟩ | ⟨hbegins, indented, hindented, rfl⟩
  · exact .inr ⟨fun hnil => hinside (hstart.mpr hnil), rfl⟩
  · exact .inl ⟨hstart.mp hbegins, rfl, hindented⟩

/-- **What a token does**, once its line has been entered: a significant token has its effect, and
any other leaves contexts and indentation alone. -/
theorem effect_token {config : Config} {s next : Cursor} {c : Category}
    (hne : s.rest ≠ []) (hlexeme : s.lexeme = []) (h : Nested baseColumn st.stack)
    (ht : st.token config s = .ok (c, next, st')) :
    ∃ entered, st.enterLine s = .ok entered ∧
      ((c.isSignificant ∧
          Effect s.column (Lexeme.mark? c next.lexeme) (entered.decideAlignment .aligned) st') ∨
        (¬ c.isSignificant ∧ st'.stack = entered.stack ∧ st'.indented = entered.indented)) := by
  obtain ⟨entered, hentered, rfl, rfl, rfl⟩ := reading_of_token hne ht
  obtain ⟨w, rest, c, after, hw, hread, hbehind, -⟩ :=
    s.lexeme_read config.extraAtoms st.pending hne hlexeme
  have hnested : Nested baseColumn entered.stack := nested_enterLine h hentered
  refine ⟨entered, hentered, ?_⟩
  rw [hread]
  dsimp only
  rw [hbehind, afterReading]
  dsimp only
  split
  · rename_i hc
    have hread : Nested baseColumn { entered with pending := after }.stack := hnested
    refine .inl ⟨hc, ?_⟩
    -- what is pending and whether the line has begun have no part in the effect
    cases effect_follow s.column (Lexeme.mark? c w) hread with
    | opens hmark hstatement hstack hindented => exact .opens hmark hstatement hstack hindented
    | closes hmark hcloser hdeciding hlist hended hstack hindented =>
      exact .closes hmark hcloser hdeciding hlist hended hstack hindented
    | ends hlist hended hmark hopen hindented => exact .ends hlist hended hmark hopen hindented
  · rename_i hc
    exact .inr ⟨hc, rfl, rfl⟩

/-- At the end of a line the cursor stays. -/
theorem cursor_of_token_nil {config : Config} {s next : Cursor} {c : Category}
    (hnil : s.rest = []) (h : st.token config s = .ok (c, next, st')) : next = s := by
  have hend : s.atLineEnd = true := by rw [Cursor.atLineEnd, hnil]; rfl
  obtain ⟨entered, -, h⟩ := Fault.bind_eq_ok.mp h
  rw [hend, if_pos rfl] at h
  obtain ⟨indented, -, h⟩ := Fault.bind_eq_ok.mp h
  obtain ⟨-, rfl, -⟩ : _ ∧ _ ∧ _ := by simpa only [Fault.pure_eq_ok, Prod.mk.injEq] using h
  rfl

/-- There, the indentation of the line is noted. -/
theorem indentation_of_token_nil {config : Config} {s next : Cursor} {c : Category}
    (hnil : s.rest = []) (h : st.token config s = .ok (c, next, st')) :
    s.indentation = .ok st'.indented := by
  have hend : s.atLineEnd = true := by rw [Cursor.atLineEnd, hnil]; rfl
  obtain ⟨entered, -, h⟩ := Fault.bind_eq_ok.mp h
  rw [hend, if_pos rfl] at h
  obtain ⟨indented, hindented, h⟩ := Fault.bind_eq_ok.mp h
  obtain ⟨-, -, rfl⟩ : _ ∧ _ ∧ _ := by simpa only [Fault.pure_eq_ok, Prod.mk.injEq] using h
  exact hindented

/-! ## Tokens at byte offsets -/

/-- A token read at an offset is a token read at a cursor that begins there. -/
theorem exists_cursor_of_tokenize {config : Config} {line : Text} {offset : Nat} {step : Step}
    (h : st.tokenize config line offset = .ok step) :
    ∃ before s next, s.StandsAfter before ∧ s.line = line ∧ s.lexeme = [] ∧
      s.start = min offset (Text.byteLength line) ∧
      st.token config s = .ok (step.category, next, step.state) ∧ step.text = next.lexeme := by
  obtain ⟨s, hs, h⟩ := Fault.bind_eq_ok.mp h
  obtain ⟨⟨c, next, st'⟩, ht, h⟩ := Fault.bind_eq_ok.mp h
  obtain rfl := Fault.pure_eq_ok.mp h
  obtain ⟨before, hstands, hline, hlexeme, hstart⟩ := Cursor.exists_standsAfter_of_ofOffset hs
  exact ⟨before, s, next, hstands, hline, hlexeme, hstart, ht, rfl⟩

/-- Where the line divides into what stands before the token and the rest, the cursor stands between
the two. -/
theorem exists_cursor_of_tokenize_append {config : Config} (before : Text) {rest : Text}
    {step : Step}
    (h : st.tokenize config (before ++ rest) (Text.byteLength before) = .ok step) :
    ∃ s next, s.StandsAfter before ∧ s.line = before ++ rest ∧
      s.tabSize = Column.tabSize config.tabSize ∧ s.lexeme = [] ∧ s.rest = rest ∧
      st.token config s = .ok (step.category, next, step.state) ∧ step.text = next.lexeme := by
  obtain ⟨s, hs, h⟩ := Fault.bind_eq_ok.mp h
  obtain ⟨⟨c, next, st'⟩, ht, h⟩ := Fault.bind_eq_ok.mp h
  obtain rfl := Fault.pure_eq_ok.mp h
  rw [Cursor.ofOffset_of_cutAt? (Text.cutAt?_byteLength before rest)] at hs
  obtain ⟨column, hcolumn, hs⟩ := Fault.bind_eq_ok.mp hs
  obtain rfl := Fault.pure_eq_ok.mp hs
  exact ⟨_, next, ⟨rfl, rfl, hcolumn⟩, rfl, rfl, rfl, rfl, ht, rfl⟩

/-- Stepping through a line leads to a state that can be reached. -/
theorem Reachable.stepThrough {config : Config} {line : Text} {steps : List Step} {final : State}
    (h : Reachable baseColumn st) (hs : st.stepThrough config line = .ok (steps, final)) :
    Reachable baseColumn final := by
  obtain ⟨⟨tokens, last⟩, htokens, heq⟩ := Fault.exists_eq_ok_of_map_eq
    ((tokensFrom_stepThrough config line st).trans (id_map _).symm) hs
  obtain ⟨-, rfl⟩ := Prod.mk.inj heq
  exact h.tokenizeLine htokens

/-- Before the end of the line it takes a part of the rest, and stops behind this part. -/
theorem exists_left_of_tokenize {config : Config} {before rest : Text} {step : Step}
    (hne : rest ≠ [])
    (h : st.tokenize config (before ++ rest) (Text.byteLength before) = .ok step) :
    ∃ left, rest = step.text ++ left ∧ step.text ≠ [] ∧
      step.stop = Text.byteLength (before ++ step.text) := by
  obtain ⟨hstop, htext⟩ := stop_of_tokenize (Text.byteLength_lt_append before hne) h
  obtain ⟨s, next, -, -, -, hlexeme, rfl, ht, hword⟩ := exists_cursor_of_tokenize_append before h
  obtain ⟨read, -, hrest, hmoved⟩ := movesOnTo_of_token hne ht
  have hread : next.lexeme = read := by
    rw [hmoved, hlexeme]
    rfl
  refine ⟨next.rest, ?_, htext, ?_⟩
  · rw [hword, hread]
    exact hrest
  · rw [hstop, Text.byteLength_append]

end State
end EditorMode
