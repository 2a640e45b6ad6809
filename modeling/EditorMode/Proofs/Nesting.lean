import EditorMode.Proofs.Lexeme
import EditorMode.Proofs.Stepping

/-! # The contexts are those of a bracket machine

The stack of contexts holds brackets and statements together, and the rules of `State.follow` look
at its top only.  What they compute is simpler than they are: a list of **levels**, one for the
document and one for each open bracket, where a level only remembers whether a statement is open in
it.  `Level.next` is this machine.  It knows nothing of columns, indents and alignments, and of a
token only its category and its text.

The two agree because a statement stands in few places: on the document or between braces, nothing
on top of it but brackets, and never a statement on another.  `Describes` is this invariant together
with the agreement: a list of levels describes a stack that can be built from it level by level.
Each token keeps it (`describes_token`), so that the kinds of the contexts are those of the
machine behind every token of every document (`kinds_of_readLines`), however brackets are nested and
whichever of them are missing. -/

namespace EditorMode

/-! ## The machine -/

/-- One level of the bracket machine. -/
structure Level where
  kind : Context.Kind
  /-- Whether a statement is open on the level. -/
  statementOpen : Bool
  deriving DecidableEq, Repr

namespace Level

/-- The levels of an empty document; levels are listed from the innermost to the document. -/
def start : List Level := [⟨.top, false⟩]

/-- The innermost level ends if it is of the kind. -/
def close (kind : Context.Kind) : List Level → List Level
  | [] => []
  | l :: outer => if l.kind = kind then outer else l :: outer

/-- The statement on the innermost level ends. -/
def endStatement : List Level → List Level
  | [] => []
  | l :: outer => { l with statementOpen := false } :: outer

/-- A statement is open on the innermost level from now on, if that is the document or between
braces. -/
def beginStatement : List Level → List Level
  | [] => []
  | l :: outer =>
    if l.kind = .top ∨ l.kind = .brace then { l with statementOpen := true } :: outer
    else l :: outer

/-- The levels behind a token, which is given by its category and its text.

* White space and comments change nothing.
* An opening bracket is a new level, without a statement.
* A `)` or `]` closes the innermost level if that is its own, and is ignored otherwise.
* A `}` closes the innermost level if that is between braces, and in any case ends the statement on
  the level that is then innermost.
* Other punctuation ends the statement on the innermost level.
* Any other token begins a statement on it, if it may have one. -/
def next (levels : List Level) : Category × Text → List Level
  | (.unstyled, _) | (.comment, _) => levels
  | (.punctuation, ['(']) => ⟨.paren, false⟩ :: levels
  | (.punctuation, ['[']) => ⟨.bracket, false⟩ :: levels
  | (.punctuation, ['{']) => ⟨.brace, false⟩ :: levels
  | (.punctuation, [')']) => close .paren levels
  | (.punctuation, [']']) => close .bracket levels
  | (.punctuation, ['}']) => endStatement (close .brace levels)
  | (.punctuation, [';']) | (.punctuation, [',']) | (.punctuation, [':'])
  | (.punctuation, ['.']) => endStatement levels
  | (.punctuation, _) => levels
  | _ => beginStatement levels

/-- The levels behind tokens. -/
def run (levels : List Level) (pieces : List (Category × Text)) : List Level :=
  pieces.foldl next levels

/-- The kinds of the contexts of one level, from the outside inwards. -/
def contexts (l : Level) : List Context.Kind :=
  l.kind :: if l.statementOpen then [.statement] else []

/-- The kinds of the contexts of all levels, from the document inwards. -/
def kinds (levels : List Level) : List Context.Kind := levels.reverse.flatMap contexts

theorem next_of_not_significant {c : Category} (hc : ¬ c.isSignificant) (levels : List Level)
    (w : Text) : next levels (c, w) = levels := by
  cases c with
  | unstyled | comment => rfl
  | _ => exact absurd rfl hc

theorem next_of_significant {c : Category} (hc : c.isSignificant) (hne : c ≠ .punctuation)
    (levels : List Level) (w : Text) : next levels (c, w) = beginStatement levels := by
  cases c with
  | unstyled | comment => exact absurd hc (by decide)
  | punctuation => exact absurd rfl hne
  | _ => rfl

/-- Clearing the flag before and after a level is closed is clearing it afterwards. -/
theorem endStatement_close_endStatement (kind : Context.Kind) (levels : List Level) :
    endStatement (close kind (endStatement levels)) = endStatement (close kind levels) := by
  cases levels with
  | nil => rfl
  | cons l outer =>
    show endStatement
        (if l.kind = kind then outer else { l with statementOpen := false } :: outer) =
      endStatement (if l.kind = kind then outer else l :: outer)
    split
    · rfl
    · rfl

end Level

/-! ## The invariant -/

/-- **The levels describe the stack.**  Statements stand only where the rules put them, and every
context is on the stack for a level or for the statement on a level. -/
inductive Describes : List Level → ContextStack → Prop where
  | root {c : Context} (hc : c.kind = .top) : Describes Level.start (.root c)
  | bracket {kind : Context.Kind} {outer : List Level} {stack : ContextStack} {c : Context}
      (hc : c.kind = kind) (hkind : kind.isBracket) (h : Describes outer stack) :
      Describes (⟨kind, false⟩ :: outer) (stack.push c)
  | statement {kind : Context.Kind} {outer : List Level} {stack : ContextStack} {c : Context}
      (hc : c.kind = .statement) (hkind : kind = .top ∨ kind = .brace)
      (h : Describes (⟨kind, false⟩ :: outer) stack) :
      Describes (⟨kind, true⟩ :: outer) (stack.push c)

namespace Describes

variable {levels outer : List Level} {stack : ContextStack} {l : Level}

/-- What is described has the kinds of the levels. -/
theorem kinds_eq (h : Describes levels stack) :
    (stack.toList.map (·.kind)).reverse = Level.kinds levels := by
  induction h with
  | root hc =>
    rw [ContextStack.toList_root, List.map_singleton, hc]
    rfl
  | bracket hc hkind h ih =>
    rw [ContextStack.toList_push, List.map_cons, List.reverse_cons, ih, hc, Level.kinds,
      Level.kinds, List.reverse_cons, List.flatMap_append]
    rfl
  | statement hc hkind h ih =>
    rw [ContextStack.toList_push, List.map_cons, List.reverse_cons, ih, hc, Level.kinds,
      Level.kinds, List.reverse_cons, List.reverse_cons, List.flatMap_append, List.flatMap_append,
      List.append_assoc]
    rfl

/-- Only the kinds of the contexts count. -/
theorem decideAlignment (a : Context.Alignment) (h : Describes levels stack) :
    Describes levels (stack.decideAlignment a) := by
  rw [ContextStack.decideAlignment]
  split
  · cases h with
    | root hc => exact .root hc
    | bracket hc hkind h => exact .bracket hc hkind h
    | statement hc hkind h => exact .statement hc hkind h
  · exact h

/-- A level without an open statement has its own context on top. -/
theorem kind_top_of_not_open (h : Describes (l :: outer) stack) (hl : ¬ l.statementOpen) :
    stack.top.kind = l.kind := by
  cases h with
  | root hc => exact hc
  | bracket hc hkind h => exact hc
  | statement hc hkind h => exact absurd rfl hl

/-- No level is a statement. -/
theorem kind_ne_statement (h : Describes (l :: outer) stack) : l.kind ≠ .statement := by
  intro hl
  cases h with
  | root hc => cases hl
  | bracket hc hkind h =>
    cases hl
    exact absurd hkind (by decide)
  | statement hc hkind h =>
    rcases hkind with rfl | rfl
    · cases hl
    · cases hl

/-- No statement stands on a level without an open statement, so there is none to drop. -/
theorem dropStatements_eq_self (h : Describes (l :: outer) stack) (hl : ¬ l.statementOpen) :
    stack.dropStatements = stack := by
  have htop : stack.top.kind ≠ .statement := by
    rw [h.kind_top_of_not_open hl]
    exact h.kind_ne_statement
  cases stack with
  | root c => rfl
  | push c below => exact if_neg htop

/-- Dropping the statements on the top, however many there are, is ending the one statement that
can be there. -/
theorem dropStatements (h : Describes levels stack) :
    Describes (Level.endStatement levels) stack.dropStatements := by
  cases h with
  | root hc => exact .root hc
  | bracket hc hkind h =>
    have hdescribes := Describes.bracket hc hkind h
    rw [hdescribes.dropStatements_eq_self Bool.false_ne_true]
    exact hdescribes
  | statement hc hkind h =>
    -- what is under the statement is the context of its level, where dropping ends
    rw [ContextStack.dropStatements, if_pos hc, h.dropStatements_eq_self Bool.false_ne_true]
    exact h

end Describes

/-! ## Operations on contexts -/

/-- No two kinds have the same closer. -/
theorem Context.Kind.closer?_eq_some_iff {k kind : Context.Kind} {c : Char}
    (hc : kind.closer? = some c) : k.closer? = some c ↔ k = kind := by
  constructor
  · intro h
    rw [← hc] at h
    cases kind with
    | top | statement => cases hc
    | paren | bracket | brace => cases k <;> first | rfl | exact absurd h (by decide)
  · rintro rfl
    exact hc

namespace State

variable {levels : List Level} {st : State} {kind : Context.Kind}

/-- Closing a context of a kind takes it off the stack if it is on top. -/
theorem stack_popKind_of_push {c : Context} {below : ContextStack}
    (hs : st.stack = .push c below) :
    (st.popKind kind).stack = if c.kind = kind then below else .push c below := by
  rw [popKind, hs]
  show (if c.kind = kind then st.pop else st).stack = _
  split
  · rw [pop, pop?, hs]
    rfl
  · exact hs

theorem stack_popKind_of_root {c : Context} (hs : st.stack = .root c) :
    (st.popKind kind).stack = .root c := by
  rw [popKind]
  split
  · rw [pop, pop?, hs]
    exact hs
  · exact hs

/-- A separator ends the statement on the innermost level. -/
theorem describes_popStatement (h : Describes levels st.stack) :
    Describes (Level.endStatement levels) (st.popKind .statement).stack := by
  generalize hs : st.stack = stack at h
  cases h with
  | root hc =>
    rw [stack_popKind_of_root hs]
    exact .root hc
  | bracket hc hkind h =>
    have hdescribes := Describes.bracket hc hkind h
    have hne := hdescribes.kind_ne_statement
    rw [stack_popKind_of_push hs, hc, if_neg hne]
    exact hdescribes
  | statement hc hkind h =>
    rw [stack_popKind_of_push hs, if_pos hc]
    exact h

/-- A closing bracket closes the innermost level if that is its own.  For braces, the statement on
the level has to end first; on other brackets there is none. -/
theorem describes_close (hbracket : kind.isBracket) (h : Describes levels st.stack)
    (hended : kind = .brace → Level.endStatement levels = levels) :
    Describes (Level.close kind levels) (st.popKind kind).stack := by
  generalize hs : st.stack = stack at h
  cases h with
  | root hc =>
    have hne : Context.Kind.top ≠ kind := by
      rintro rfl
      exact absurd hbracket (by decide)
    rw [stack_popKind_of_root hs, Level.start, Level.close, if_neg hne]
    exact .root hc
  | bracket hc hkind h =>
    rw [stack_popKind_of_push hs, hc, Level.close]
    split
    · exact h
    · exact .bracket hc hkind h
  | @statement kind' outer below c hc hkind h =>
    have hstatement : Context.Kind.statement ≠ kind := by
      rintro rfl
      exact absurd hbracket (by decide)
    -- the level has an open statement, so it is not one that is closed here
    have hne : kind' ≠ kind := by
      rintro rfl
      rcases hkind with rfl | rfl
      · exact absurd hbracket (by decide)
      · exact absurd (hended rfl) (by simp [Level.endStatement])
    rw [stack_popKind_of_push hs, hc, if_neg hstatement, Level.close, if_neg hne]
    exact .statement hc hkind h

/-- A closing brace ends the statement in the braces, closes them, and ends the statement that they
belong to. -/
theorem describes_closeBrace (h : Describes levels st.stack) :
    Describes (Level.endStatement (Level.close .brace levels))
      ((st.dropStatements.popKind .brace).dropStatements).stack := by
  -- on the stack the statement has to end first; for the levels this makes no difference
  have hdropped : Describes (Level.endStatement levels) st.dropStatements.stack := h.dropStatements
  have hended : Level.endStatement (Level.endStatement levels) = Level.endStatement levels := by
    cases levels with
    | nil => rfl
    | cons l outer => rfl
  have hclosed : Describes (Level.close .brace (Level.endStatement levels))
      (st.dropStatements.popKind .brace).stack := describes_close rfl hdropped fun _ => hended
  rw [← Level.endStatement_close_endStatement]
  exact hclosed.dropStatements

/-- Opening a context puts one of its kind on the stack. -/
theorem exists_stack_push (column : Nat) (kind : Context.Kind) (st : State) :
    ∃ c : Context, c.kind = kind ∧ (st.push column kind).stack = st.stack.push c :=
  ⟨_, rfl, rfl⟩

theorem describes_beginStatement (column : Nat) (h : Describes levels st.stack) :
    Describes (Level.beginStatement levels)
      (match st.stack.top.kind with
        | .top | .brace => st.push column .statement
        | _ => st).stack := by
  obtain ⟨c, hc, hpush⟩ := exists_stack_push column .statement st
  generalize hs : st.stack = stack at h hpush
  cases h with
  | @root c' hroot =>
    have htop : (ContextStack.root c').top.kind = .top := hroot
    rw [htop]
    show Describes _ (st.push column .statement).stack
    rw [hpush]
    exact .statement hc (.inl rfl) (.root hroot)
  | @bracket kind outer below c' hbracket hkind h =>
    have htop : (below.push c').top.kind = kind := hbracket
    have hdescribes := Describes.bracket hbracket hkind h
    rw [htop]
    cases kind with
    | top | statement => exact absurd hkind (by decide)
    | paren | bracket =>
      show Describes _ st.stack
      rw [hs]
      exact hdescribes
    | brace =>
      show Describes _ (st.push column .statement).stack
      rw [hpush]
      exact .statement hc (.inr rfl) hdescribes
  | @statement kind outer below c' hstatement hkind h =>
    have htop : (below.push c').top.kind = .statement := hstatement
    rw [htop, Level.beginStatement, if_pos hkind]
    show Describes _ st.stack
    rw [hs]
    exact .statement hstatement hkind h

/-! ## Tokens -/

/-- A token that is not punctuation begins a statement where none is open. -/
theorem describes_follow_none (column : Nat) (h : Describes levels st.stack) :
    Describes (Level.beginStatement levels) (st.follow column none).stack := by
  have hdecided : Describes levels (st.decideAlignment .aligned).stack := h.decideAlignment .aligned
  exact describes_beginStatement column hdecided

/-- A closer other than the brace closes the innermost level if that is its own. -/
theorem describes_closer {c : Char} (hc : kind.closer? = some c) (hne : kind ≠ .brace)
    (h : Describes levels st.stack) :
    Describes (Level.close kind levels)
      (if st.stack.top.kind.closer? = some c then st.pop else st).stack := by
  have hbracket : kind.isBracket := by
    rw [Context.Kind.isBracket, hc]
    rfl
  simp only [Context.Kind.closer?_eq_some_iff hc]
  exact describes_close hbracket h fun heq => absurd heq hne

/-- **Each punctuation character does to the contexts what it does to the levels.** -/
theorem describes_follow_some (column : Nat) {c : Char}
    (hc : c ∈ ['[', ']', '{', '}', '(', ')', ',', ';', ':', '.'])
    (h : Describes levels st.stack) :
    Describes (Level.next levels (.punctuation, [c])) (st.follow column (some c)).stack := by
  have hdecided : Describes levels (st.decideAlignment .aligned).stack := h.decideAlignment .aligned
  simp only [List.mem_cons, List.not_mem_nil, or_false] at hc
  rcases hc with rfl | rfl | rfl | rfl | rfl | rfl | rfl | rfl | rfl | rfl
  · exact .bracket rfl rfl hdecided
  · show Describes (Level.close .bracket levels) _
    exact describes_closer rfl nofun hdecided
  · exact .bracket rfl rfl hdecided
  · exact describes_closeBrace hdecided
  · exact .bracket rfl rfl hdecided
  · show Describes (Level.close .paren levels) _
    exact describes_closer rfl nofun hdecided
  · exact describes_popStatement hdecided
  · exact describes_popStatement hdecided
  · exact describes_popStatement hdecided
  · exact describes_popStatement hdecided

/-- **A lexeme does to the contexts what it does to the levels.** -/
theorem describes_afterReading {extraAtoms : WordSet} {pending after : Option Construct}
    {w rest : Text} {c : Category} (hw : Lexeme extraAtoms pending w rest c after) (column : Nat)
    (next : Cursor) (h : Describes levels st.stack) :
    Describes (Level.next levels (c, w))
      (st.afterReading column ⟨c, Lexeme.mark? c w, after, next⟩).stack := by
  have hpending : Describes levels { st with pending := after }.stack := h
  rw [afterReading]
  by_cases hsignificant : c.isSignificant
  · rw [if_pos hsignificant]
    by_cases hpunctuation : c = .punctuation
    · subst hpunctuation
      obtain ⟨d, hd, rfl⟩ := hw.exists_of_punctuation
      exact describes_follow_some column hd hpending
    · rw [Level.next_of_significant hsignificant hpunctuation, Lexeme.mark?, if_neg hpunctuation]
      exact describes_follow_none column hpending
  · rw [if_neg hsignificant, Level.next_of_not_significant hsignificant]
    exact hpending

theorem describes_enterLine {s : Cursor} {entered : State} (h : Describes levels st.stack)
    (he : st.enterLine s = .ok entered) : Describes levels entered.stack := by
  rw [enterLine] at he
  split at he
  · obtain ⟨indented, -, he⟩ := Fault.bind_eq_ok.mp he
    obtain rfl := Fault.pure_eq_ok.mp he
    exact h.decideAlignment .hanging
  · obtain rfl := Fault.pure_eq_ok.mp he
    exact h

/-- **One step of the run.**  A token read before the end of the line is a step of the machine. -/
theorem describes_token {config : Config} {s next : Cursor} {st' : State} {c : Category}
    (hne : s.rest ≠ []) (hlexeme : s.lexeme = []) (h : Describes levels st.stack)
    (ht : st.token config s = .ok (c, next, st')) :
    Describes (Level.next levels (c, next.lexeme)) st'.stack := by
  obtain ⟨entered, hentered, rfl, rfl, rfl⟩ := reading_of_token hne ht
  obtain ⟨w, rest, c, after, hw, hread, hbehind, -⟩ :=
    s.lexeme_read config.extraAtoms st.pending hne hlexeme
  rw [hread]
  show Describes (Level.next levels (c, (s.forward w.length).lexeme)) _
  rw [hbehind]
  exact describes_afterReading hw s.column (s.forward w.length) (describes_enterLine h hentered)

/-- At the end of a line there is no token, and the levels stay. -/
theorem describes_token_nil {config : Config} {s next : Cursor} {st' : State} {c : Category}
    (hnil : s.rest = []) (h : Describes levels st.stack)
    (ht : st.token config s = .ok (c, next, st')) : Describes levels st'.stack := by
  obtain ⟨entered, indented, hentered, rfl⟩ := entering_of_token hnil ht
  show Describes levels entered.stack
  exact describes_enterLine h hentered

end State

/-! ## Documents -/

/-- What the machine sees of a step. -/
def Step.piece (step : Step) : Category × Text := (step.category, step.text)

/-- Behind each of the steps, the machine that has made them describes the stack. -/
def Step.Described (levels : List Level) : List Step → Prop
  | [] => True
  | step :: steps =>
    Describes (Level.next levels step.piece) step.state.stack ∧
      Described (Level.next levels step.piece) steps

theorem Level.run_append (levels : List Level) (pieces pieces' : List (Category × Text)) :
    Level.run levels (pieces ++ pieces') = Level.run (Level.run levels pieces) pieces' :=
  List.foldl_append

theorem Step.described_append {levels : List Level} {steps steps' : List Step} :
    Step.Described levels (steps ++ steps') ↔
      Step.Described levels steps ∧
        Step.Described (Level.run levels (steps.map Step.piece)) steps' := by
  induction steps generalizing levels with
  | nil => simp [Step.Described, Level.run]
  | cons step steps ih =>
    rw [List.cons_append, Step.Described, Step.Described, ih, and_assoc]
    rfl

/-- The machine that has made the steps up to one of them describes the stack behind it. -/
theorem Step.Described.describes {levels : List Level} {before after : List Step} {step : Step}
    (h : Step.Described levels (before ++ step :: after)) :
    Describes (Level.run levels ((before ++ [step]).map Step.piece)) step.state.stack := by
  rw [List.map_append, Level.run_append]
  exact (Step.described_append.mp h).2.1

namespace State

variable {config : Config} {levels : List Level}

/-- **The run over what is left of a line**, by induction on its steps. -/
theorem described_of_stepFrom {line : Text} {offset : Nat} {st final : State} {steps : List Step}
    (h : Describes levels st.stack) (hs : st.stepFrom config line offset = .ok (steps, final)) :
    Step.Described levels steps ∧
      Describes (Level.run levels (steps.map Step.piece)) final.stack := by
  induction steps generalizing levels offset st with
  | nil =>
    obtain ⟨-, rfl⟩ := stepFrom_eq_ok_nil hs
    exact ⟨trivial, h⟩
  | cons step steps ih =>
    obtain ⟨hlt, hfirst, hothers⟩ := stepFrom_eq_ok_cons hs
    obtain ⟨s, next, hne, hlexeme, -, ht, htext, -⟩ := exists_token_of_tokenize hlt hfirst
    have hstep : Describes (Level.next levels step.piece) step.state.stack := by
      rw [Step.piece, htext]
      exact describes_token hne hlexeme h ht
    obtain ⟨hsteps, hfinal⟩ := ih hstep hothers
    exact ⟨⟨hstep, hsteps⟩, hfinal⟩

theorem described_of_stepThrough {line : Text} {st final : State} {steps : List Step}
    (h : Describes levels st.stack) (hs : st.stepThrough config line = .ok (steps, final)) :
    Step.Described levels steps ∧
      Describes (Level.run levels (steps.map Step.piece)) final.stack := by
  by_cases hnil : line = []
  · subst hnil
    obtain ⟨rfl, c, next, ht⟩ := steps_eq_nil_of_stepThrough_nil hs
    exact ⟨trivial, describes_token_nil rfl h ht⟩
  · rw [stepThrough_of_ne_nil hnil] at hs
    exact described_of_stepFrom h hs

/-- **The run over a document**, by induction on its lines. -/
theorem described_of_stepLines {texts : List Text} {st : State}
    {stepped : List (List Step × State)} (h : Describes levels st.stack)
    (hs : st.stepLines config texts = .ok stepped) :
    Step.Described levels (stepped.flatMap Prod.fst) := by
  induction texts generalizing levels st stepped with
  | nil =>
    obtain rfl := Except.ok.inj hs
    trivial
  | cons text texts ih =>
    obtain ⟨steps, state, tail, hline, htail, rfl⟩ := stepLines_cons_eq_ok hs
    obtain ⟨hsteps, hstate⟩ := described_of_stepThrough h hline
    rw [List.flatMap_cons]
    exact Step.described_append.mpr ⟨hsteps, ih hstate htail⟩

/-- **The contexts behind every token are those of the bracket machine.**  Lines that are read in
order from the start state, and none of which overflows, have the tokens and the end states of the
steps through them; and behind each of these steps, the kinds of the contexts from the document
inwards are the kinds of the levels, each followed by a statement if one is open on it. -/
theorem kinds_of_readLines (config : Config) (baseColumn : Nat) (texts : List Text)
    (hover : Document.readLines config (start baseColumn) texts ≠ .error .columnOverflow) :
    ∃ lines stepped,
      Document.readLines config (start baseColumn) texts = .ok lines ∧
      (start baseColumn).stepLines config texts = .ok stepped ∧
      stepped.map (fun r => (Step.tokensFrom 0 r.1, r.2)) =
        lines.map (fun line => (line.tokens, line.state)) ∧
      ∀ before step after, stepped.flatMap Prod.fst = before ++ step :: after →
        (step.state.stack.toList.map (·.kind)).reverse =
          Level.kinds (Level.run Level.start ((before ++ [step]).map Step.piece)) := by
  obtain ⟨lines, hlines⟩ :=
    (Document.onlyOverflows_readLines config (start baseColumn) texts).exists_eq_ok hover
  have hsame := tokensFrom_stepLines config texts (start baseColumn)
  rw [hlines] at hsame
  cases hstepped : (start baseColumn).stepLines config texts with
  | error fault =>
    rw [hstepped] at hsame
    cases hsame
  | ok stepped =>
    rw [hstepped] at hsame
    refine ⟨lines, stepped, hlines, rfl, Except.ok.inj hsame, ?_⟩
    intro before step after hsteps
    have hstart : Describes Level.start (start baseColumn).stack := .root rfl
    have hdescribed := described_of_stepLines hstart hstepped
    rw [hsteps] at hdescribed
    exact hdescribed.describes.kinds_eq

/-- Closers without an opener, closers of the wrong kind, braces closed inside brackets, and a
string and a comment with brackets in them that run over the ends of lines. -/
theorem kinds_of_readLines_malformed :
    let texts : List Text := ["a) (b, [c) \x7d".toList, "\x7b x ] \"(\\".toList, "".toList,
      "[\" ; y /*/ \x7b".toList, "*/ \x7d . z \x7d".toList]
    ∃ lines stepped,
      Document.readLines {} (start 3) texts = .ok lines ∧
      (start 3).stepLines {} texts = .ok stepped ∧
      stepped.map (fun r => (Step.tokensFrom 0 r.1, r.2)) =
        lines.map (fun line => (line.tokens, line.state)) ∧
      ∀ before step after, stepped.flatMap Prod.fst = before ++ step :: after →
        (step.state.stack.toList.map (·.kind)).reverse =
          Level.kinds (Level.run Level.start ((before ++ [step]).map Step.piece)) := by
  intro texts
  exact kinds_of_readLines {} 3 texts (Fault.ne_overflow_of_isOk (by decide +kernel))

end State
end EditorMode
