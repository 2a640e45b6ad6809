import EditorMode.Proofs.Folding
import EditorMode.Proofs.History

/-! # Folds and contexts agree on properly nested text

Folding looks at braces alone and counts them.  The contexts know all brackets, and the statements
between them.  Where brackets are crossed, the two can disagree about which brace closes which.
They agree where every closing bracket closes the innermost bracket that is open: then the context
of a line's last opening brace is taken off the stack by the brace at which the fold ends.

Both are compared with a third thing, the list of the brackets that are open (`Brackets.next?`).
On the one side this list is the stack without its statements
(`State.exists_tracks_of_stepLines`), so that the context of a brace is on the stack as long as the
brace and what was open around it are in the list.  On the other side, as long as they are, the
counter is the number of the braces above them (`Occurrence.Tracks.depthAfter?_count`). -/

namespace EditorMode

/-! ## Open brackets -/

/-- What a token is to the nesting of brackets: its category and its text. -/
def Token.piece (t : Token) : Category × Text := (t.category, t.text)

namespace Brackets

/-- The brackets that are open when one of the kind has been closed; none if the innermost one is
not of the kind. -/
def close? (kind : Context.Kind) : List Context.Kind → Option (List Context.Kind)
  | [] => none
  | innermost :: outer => if innermost = kind then some outer else none

/-- The brackets that are open behind a token, innermost first; none if it closes a bracket that is
not the innermost one. -/
def next? (brackets : List Context.Kind) : Category × Text → Option (List Context.Kind)
  | (.punctuation, ['(']) => some (.paren :: brackets)
  | (.punctuation, ['[']) => some (.bracket :: brackets)
  | (.punctuation, ['{']) => some (.brace :: brackets)
  | (.punctuation, [')']) => close? .paren brackets
  | (.punctuation, [']']) => close? .bracket brackets
  | (.punctuation, ['}']) => close? .brace brackets
  | _ => some brackets

/-- The brackets that are open behind tokens. -/
def run? (brackets : List Context.Kind) (pieces : List (Category × Text)) :
    Option (List Context.Kind) :=
  pieces.foldlM next? brackets

end Brackets

/-- **Every closing bracket of the document closes the innermost bracket that is open.**  Brackets
may stay open. -/
def Document.ProperlyNested (doc : Document) : Prop :=
  (Brackets.run? [] ((doc.lines.flatMap (·.tokens)).map Token.piece)).isSome

instance (doc : Document) : Decidable doc.ProperlyNested :=
  inferInstanceAs (Decidable (_ = true))

/-- The three opening brackets. -/
theorem Context.Kind.eq_of_ofOpener? {c : Char} {kind : Context.Kind}
    (h : Context.Kind.ofOpener? c = some kind) :
    (c = '(' ∧ kind = .paren) ∨ (c = '[' ∧ kind = .bracket) ∨ (c = '{' ∧ kind = .brace) := by
  unfold Context.Kind.ofOpener? at h
  split at h
  · exact .inl ⟨rfl, (Option.some.inj h).symm⟩
  · exact .inr (.inl ⟨rfl, (Option.some.inj h).symm⟩)
  · exact .inr (.inr ⟨rfl, (Option.some.inj h).symm⟩)
  · cases h

namespace Brackets

variable {brackets after : List Context.Kind} {kind : Context.Kind}

theorem run?_cons (brackets : List Context.Kind) (p : Category × Text)
    (pieces : List (Category × Text)) :
    run? brackets (p :: pieces) = (next? brackets p).bind fun after => run? after pieces := by
  simp [run?, bind]

theorem close?_eq_some_iff : close? kind brackets = some after ↔ brackets = kind :: after := by
  cases brackets with
  | nil => simp [close?]
  | cons innermost outer =>
    rw [close?]
    split
    · rename_i heq
      simp [heq]
    · rename_i hne
      simp [hne]

/-- What a token does to the open brackets. -/
inductive Change (brackets after : List Context.Kind) : Category × Text → Prop where
  | opens {kind : Context.Kind} {c : Char} (hc : Context.Kind.ofOpener? c = some kind)
      (h : after = kind :: brackets) : Change brackets after (.punctuation, [c])
  | closes {kind : Context.Kind} {c : Char} (hc : kind.closer? = some c)
      (h : brackets = kind :: after) : Change brackets after (.punctuation, [c])
  | stays {p : Category × Text} (h : after = brackets)
      (hopener : ∀ kind c, Context.Kind.ofOpener? c = some kind → p ≠ (.punctuation, [c]))
      (hcloser : ∀ kind c, Context.Kind.closer? kind = some c → p ≠ (.punctuation, [c])) :
      Change brackets after p

/-- **One token.** -/
theorem change_of_next? {p : Category × Text} (h : next? brackets p = some after) :
    Change brackets after p := by
  unfold next? at h
  split at h
  · exact .opens rfl (Option.some.inj h).symm
  · exact .opens rfl (Option.some.inj h).symm
  · exact .opens rfl (Option.some.inj h).symm
  · have hc : Context.Kind.closer? .paren = some ')' := rfl
    exact .closes hc (close?_eq_some_iff.mp h)
  · have hc : Context.Kind.closer? .bracket = some ']' := rfl
    exact .closes hc (close?_eq_some_iff.mp h)
  · have hc : Context.Kind.closer? .brace = some '}' := rfl
    exact .closes hc (close?_eq_some_iff.mp h)
  · rename_i hparen hbracket hbrace hparen' hbracket' hbrace'
    refine .stays (Option.some.inj h).symm ?_ ?_
    · intro kind c hc
      rcases Context.Kind.eq_of_ofOpener? hc with ⟨rfl, -⟩ | ⟨rfl, -⟩ | ⟨rfl, -⟩
      · exact hparen
      · exact hbracket
      · exact hbrace
    · intro kind c hc
      cases kind with
      | top | statement => cases hc
      | paren => exact Option.some.inj hc ▸ hparen'
      | bracket => exact Option.some.inj hc ▸ hbracket'
      | brace => exact Option.some.inj hc ▸ hbrace'

/-- The brace that an opener is. -/
theorem brace?_of_opener {t : Token} {c : Char} (hc : Context.Kind.ofOpener? c = some kind)
    (ht : t.piece = (.punctuation, [c])) :
    t.brace? = if kind = .brace then some .opening else none := by
  obtain ⟨hcategory, htext⟩ := Prod.mk.inj ht
  rw [Token.brace?, if_pos hcategory, htext]
  rcases Context.Kind.eq_of_ofOpener? hc with ⟨rfl, rfl⟩ | ⟨rfl, rfl⟩ | ⟨rfl, rfl⟩
  · rfl
  · rfl
  · rfl

/-- The brace that a closer is. -/
theorem brace?_of_closer {t : Token} {c : Char} (hc : kind.closer? = some c)
    (ht : t.piece = (.punctuation, [c])) :
    t.brace? = if kind = .brace then some .closing else none := by
  obtain ⟨hcategory, htext⟩ := Prod.mk.inj ht
  rw [Token.brace?, if_pos hcategory, htext]
  cases kind with
  | top | statement => cases hc
  | paren | bracket | brace =>
    obtain rfl := Option.some.inj hc
    rfl

/-- No other token is a brace. -/
theorem brace?_eq_none {t : Token}
    (hopener : ∀ kind c, Context.Kind.ofOpener? c = some kind → t.piece ≠ (.punctuation, [c]))
    (hcloser : ∀ kind c, Context.Kind.closer? kind = some c → t.piece ≠ (.punctuation, [c])) :
    t.brace? = none := by
  rw [Token.brace?]
  split
  · rename_i hcategory
    have hopening : t.text ≠ ['{'] := fun htext => hopener .brace '{' rfl (Prod.ext hcategory htext)
    have hclosing : t.text ≠ ['}'] := fun htext => hcloser .brace '}' rfl (Prod.ext hcategory htext)
    rw [if_neg hopening, if_neg hclosing]
  · rfl

end Brackets

/-! ## Brackets and levels -/

namespace Level

variable {brackets after : List Context.Kind} {kind : Context.Kind}

theorem kinds_endStatement (levels : List Level) :
    (endStatement levels).map Level.kind = levels.map Level.kind := by
  cases levels <;> rfl

theorem kinds_beginStatement (levels : List Level) :
    (beginStatement levels).map Level.kind = levels.map Level.kind := by
  cases levels with
  | nil => rfl
  | cons l outer =>
    rw [beginStatement]
    split
    · rfl
    · rfl

/-- Where the innermost bracket is of the kind, its level is closed. -/
theorem kinds_close {levels : List Level} {others : List Context.Kind}
    (h : levels.map Level.kind = kind :: others) :
    (close kind levels).map Level.kind = others := by
  cases levels with
  | nil => cases h
  | cons l outer =>
    obtain ⟨hkind, houter⟩ := List.cons.inj h
    rw [close, if_pos hkind]
    exact houter

/-- Only openers and closers change the kinds of the levels. -/
theorem kinds_next {levels : List Level} {p : Category × Text}
    (hopener : ∀ kind c, Context.Kind.ofOpener? c = some kind → p ≠ (.punctuation, [c]))
    (hcloser : ∀ kind c, Context.Kind.closer? kind = some c → p ≠ (.punctuation, [c])) :
    (next levels p).map Level.kind = levels.map Level.kind := by
  unfold next
  split
  · rfl
  · rfl
  · exact absurd rfl (hopener .paren '(' rfl)
  · exact absurd rfl (hopener .bracket '[' rfl)
  · exact absurd rfl (hopener .brace '{' rfl)
  · exact absurd rfl (hcloser .paren ')' rfl)
  · exact absurd rfl (hcloser .bracket ']' rfl)
  · exact absurd rfl (hcloser .brace '}' rfl)
  · exact kinds_endStatement levels
  · exact kinds_endStatement levels
  · exact kinds_endStatement levels
  · exact kinds_endStatement levels
  · rfl
  · exact kinds_beginStatement levels

/-- **What a token does to the open brackets, it does to the levels**, which are those of the open
brackets and the document. -/
theorem kinds_next_of_next? {levels : List Level} {p : Category × Text}
    (hlevels : levels.map Level.kind = brackets ++ [.top])
    (h : Brackets.next? brackets p = some after) :
    (next levels p).map Level.kind = after ++ [.top] := by
  cases Brackets.change_of_next? h with
  | @opens kind c hc hafter =>
    have hnext : next levels (.punctuation, [c]) = ⟨kind, false⟩ :: levels := by
      rcases Context.Kind.eq_of_ofOpener? hc with ⟨rfl, rfl⟩ | ⟨rfl, rfl⟩ | ⟨rfl, rfl⟩
      · rfl
      · rfl
      · rfl
    rw [hnext, List.map_cons, hlevels, hafter]
    rfl
  | @closes kind c hc hbrackets =>
    have hclose : (close kind levels).map Level.kind = after ++ [.top] := by
      apply kinds_close
      rw [hlevels, hbrackets]
      rfl
    cases kind with
    | top | statement => cases hc
    | paren | bracket =>
      obtain rfl := Option.some.inj hc
      exact hclose
    | brace =>
      obtain rfl := Option.some.inj hc
      exact (kinds_endStatement _).trans hclose
  | stays hafter hopener hcloser =>
    rw [kinds_next hopener hcloser, hlevels, hafter]

end Level

/-! ## Brackets on the stack -/

namespace ContextStack

/-- The kinds of the brackets on the stack, innermost first. -/
def brackets (s : ContextStack) : List Context.Kind :=
  (s.toList.map (·.kind)).filter Context.Kind.isBracket

variable {s outer : ContextStack} {opened : Context}

theorem brackets_push_of_isBracket (h : opened.kind.isBracket) (s : ContextStack) :
    (s.push opened).brackets = opened.kind :: s.brackets := by
  rw [brackets, toList_push, List.map_cons, List.filter_cons_of_pos h]
  rfl

theorem brackets_push_of_not_isBracket (h : ¬ opened.kind.isBracket) (s : ContextStack) :
    (s.push opened).brackets = s.brackets := by
  rw [brackets, toList_push, List.map_cons, List.filter_cons_of_neg h]
  rfl

/-- With the frame of a bracket, the bracket and those around it are on the stack. -/
theorem HasFrame.brackets_suffix (h : s.HasFrame opened outer) (hbracket : opened.kind.isBracket) :
    opened.kind :: outer.brackets <:+ s.brackets := by
  obtain ⟨a, hsuffix⟩ := h
  have hbrackets : (outer.push { opened with alignment := a }).brackets =
      opened.kind :: outer.brackets := brackets_push_of_isBracket hbracket outer
  rw [← hbrackets]
  exact (hsuffix.map _).filter _

/-- When a bracket has been closed, those around it are left. -/
theorem brackets_of_afterClosing {kind : Context.Kind} (h : s.toList = outer.afterClosing kind) :
    s.brackets = outer.brackets := by
  rw [brackets, h, afterClosing]
  split
  · rename_i hstatement
    -- what is left out besides is a statement
    cases outer with
    | root c =>
      have hc : ¬ c.kind.isBracket := by
        rw [show c.kind = .statement from hstatement.2]
        decide
      rw [brackets, toList_root, List.map_singleton, List.filter_cons_of_neg hc]
      rfl
    | push c below =>
      have hc : ¬ c.kind.isBracket := by
        rw [show c.kind = .statement from hstatement.2]
        decide
      rw [brackets_push_of_not_isBracket hc]
      rfl
  · rfl

end ContextStack

/-- The levels of a stack are those of its brackets and of the document. -/
theorem Describes.kinds_levels {levels : List Level} {stack : ContextStack}
    (h : Describes levels stack) : levels.map Level.kind = stack.brackets ++ [.top] := by
  induction h with
  | root hc =>
    have hroot : ¬ Context.Kind.isBracket .top := by decide
    rw [ContextStack.brackets, ContextStack.toList_root, List.map_singleton, hc,
      List.filter_cons_of_neg hroot]
    rfl
  | bracket hc hkind h ih =>
    obtain rfl := hc
    rw [ContextStack.brackets_push_of_isBracket hkind, List.map_cons, ih]
    rfl
  | statement hc hkind h ih =>
    rw [ContextStack.brackets_push_of_not_isBracket (by rw [hc]; decide), ← ih]
    rfl

/-! ## Occurrences -/

namespace Occurrence

/-- The token that occurs. -/
def token (t : Occurrence) : Token := ⟨t.step.category, Text.byteLength t.before, t.step.text⟩

/-- The brace that occurs. -/
def mark? (t : Occurrence) : Option Document.BraceMark :=
  t.token.brace?.map fun brace => ⟨t.line, t.token, brace⟩

/-- The bracket contexts on the stack behind the tokens are the brackets that they leave open, of
which those that were open before are given first and the last ones at the end. -/
def Tracks (brackets : List Context.Kind) : List Occurrence → List Context.Kind → Prop
  | [], last => last = brackets
  | t :: later, last =>
    Brackets.next? brackets t.step.piece = some t.step.state.stack.brackets ∧
      Tracks t.step.state.stack.brackets later last

theorem tracks_append {brackets last : List Context.Kind} {first others : List Occurrence} :
    Tracks brackets (first ++ others) last ↔
      ∃ middle, Tracks brackets first middle ∧ Tracks middle others last := by
  induction first generalizing brackets with
  | nil => simp [Tracks]
  | cons t first ih => simp [Tracks, ih, and_assoc]

/-- Where every closing bracket closes the innermost one, the stack keeps account of them. -/
theorem exists_tracks_of_described {levels : List Level} {brackets : List Context.Kind}
    {tokens : List Occurrence} (h : Step.Described levels (tokens.map (·.step)))
    (hlevels : levels.map Level.kind = brackets ++ [.top])
    (hnested : (Brackets.run? brackets (tokens.map (·.step.piece))).isSome) :
    ∃ last, Tracks brackets tokens last := by
  induction tokens generalizing levels brackets with
  | nil => exact ⟨brackets, rfl⟩
  | cons t later ih =>
    obtain ⟨hstep, hothers⟩ := h
    obtain ⟨final, hfinal⟩ := Option.isSome_iff_exists.mp hnested
    rw [List.map_cons, Brackets.run?_cons] at hfinal
    obtain ⟨after, hafter, hlater⟩ := Option.bind_eq_some_iff.mp hfinal
    have hkinds := Level.kinds_next_of_next? hlevels hafter
    obtain rfl : t.step.state.stack.brackets = after :=
      List.append_cancel_right (hstep.kinds_levels.symm.trans hkinds)
    obtain ⟨last, hlast⟩ := ih hothers hkinds (Option.isSome_iff_exists.mpr ⟨final, hlater⟩)
    exact ⟨last, hafter, hlast⟩

/-- One token moves the counter by the brace that it opens or closes. -/
theorem depthAfter?_step {inner inner' outer : List Context.Kind} {t : Occurrence}
    (h : Brackets.next? (inner ++ outer) t.step.piece = some (inner' ++ outer))
    (marks : List Document.BraceMark) :
    Document.depthAfter? (inner.count .brace) (t.mark?.toList ++ marks) =
      Document.depthAfter? (inner'.count .brace) marks := by
  have h' : Brackets.next? (inner ++ outer) t.token.piece = some (inner' ++ outer) := h
  generalize hp : t.token.piece = p at h'
  cases Brackets.change_of_next? h' with
  | @opens kind c hc hafter =>
    obtain rfl : inner' = kind :: inner := List.append_cancel_right hafter
    rw [mark?, Brackets.brace?_of_opener hc hp]
    by_cases hbrace : kind = .brace
    · rw [if_pos hbrace, hbrace, List.count_cons_self]
      exact Document.depthAfter?_opening rfl
    · rw [if_neg hbrace, List.count_cons_of_ne hbrace]
      rfl
  | @closes kind c hc hbrackets =>
    obtain rfl : inner = kind :: inner' := List.append_cancel_right hbrackets
    rw [mark?, Brackets.brace?_of_closer hc hp]
    by_cases hbrace : kind = .brace
    · rw [if_pos hbrace, hbrace, List.count_cons_self]
      exact Document.depthAfter?_closing_succ rfl
    · rw [if_neg hbrace, List.count_cons_of_ne hbrace]
      rfl
  | stays hafter hopener hcloser =>
    obtain rfl : inner' = inner := List.append_cancel_right hafter
    have hnone : t.token.brace? = none :=
      Brackets.brace?_eq_none (fun kind c hc => hp ▸ hopener kind c hc)
        (fun kind c hc => hp ▸ hcloser kind c hc)
    rw [mark?, hnone]
    rfl

/-- As long as the brackets `outer` are open, the counter is the number of the braces that are open
in them. -/
theorem Tracks.depthAfter?_count {inner outer last : List Context.Kind} {tokens : List Occurrence}
    (h : Tracks (inner ++ outer) tokens last)
    (habove : ∀ t ∈ tokens, outer <:+ t.step.state.stack.brackets) :
    ∃ inner', last = inner' ++ outer ∧
      Document.depthAfter? (inner.count .brace) (tokens.filterMap mark?) =
        some (inner'.count .brace) := by
  induction tokens generalizing inner with
  | nil => exact ⟨inner, h, rfl⟩
  | cons t later ih =>
    obtain ⟨hnext, hlater⟩ := h
    obtain ⟨⟨inner', hinner'⟩, habove⟩ := List.forall_mem_cons.mp habove
    rw [← hinner'] at hnext hlater
    obtain ⟨last', hlast, hdepth⟩ := ih hlater habove
    refine ⟨last', hlast, ?_⟩
    have hmarks : (t :: later).filterMap mark? = t.mark?.toList ++ later.filterMap mark? := by
      rw [List.filterMap_cons]
      cases t.mark? <;> rfl
    rw [hmarks, depthAfter?_step hnext]
    exact hdepth

/-- **Counting the braces** from where some brackets are the innermost ones: as long as they are
open, no brace is closed that has not been opened in them. -/
theorem Tracks.exists_depthAfter? {outer last : List Context.Kind} {tokens : List Occurrence}
    (h : Tracks outer tokens last) (habove : ∀ t ∈ tokens, outer <:+ t.step.state.stack.brackets) :
    ∃ inner, last = inner ++ outer ∧
      Document.depthAfter? 0 (tokens.filterMap mark?) = some (inner.count .brace) := by
  have hinner : Tracks ([] ++ outer) tokens last := h
  exact hinner.depthAfter?_count habove

/-! ## Occurrences and lines -/

theorem map_step_ofSteps (n : Nat) (before : Text) (steps : List Step) :
    (ofSteps n before steps).map (·.step) = steps := by
  induction steps generalizing before with
  | nil => rfl
  | cons step steps ih => rw [ofSteps, List.map_cons, ih]

theorem map_step_ofLines (n : Nat) (stepped : List (List Step × State)) :
    (ofLines n stepped).map (·.step) = stepped.flatMap Prod.fst := by
  induction stepped generalizing n with
  | nil => rfl
  | cons visit stepped ih =>
    rw [ofLines, List.map_append, map_step_ofSteps, ih, List.flatMap_cons]

/-- The braces that occur in a line are those of its tokens. -/
theorem filterMap_mark?_ofSteps (n : Nat) {before : Text} {steps : List Step}
    (h : Step.Contiguous (Text.byteLength before) steps) :
    (ofSteps n before steps).filterMap mark? =
      Document.bracesOf n (Step.tokensFrom (Text.byteLength before) steps) := by
  induction steps generalizing before with
  | nil => rfl
  | cons step steps ih =>
    obtain ⟨hstop, hsteps⟩ := h
    rw [← Text.byteLength_append] at hstop
    rw [hstop] at hsteps
    rw [ofSteps, List.filterMap_cons, ih hsteps, Step.tokensFrom, hstop]
    rfl

end Occurrence

namespace State

variable {config : Config} {st : State} {texts : List Text} {stepped : List (List Step × State)}
  {lines : List Document.Line}

/-- The braces that occur in lines that have been stepped through are those of the lines. -/
theorem bracesFrom_of_stepLines (n : Nat) (hs : st.stepLines config texts = .ok stepped)
    (hsame : lines.map (fun line => (line.tokens, line.state)) =
      stepped.map fun visit => (Step.tokensFrom 0 visit.1, visit.2)) :
    Document.bracesFrom n lines = (Occurrence.ofLines n stepped).filterMap Occurrence.mark? := by
  induction texts generalizing n st stepped lines with
  | nil =>
    obtain rfl := Except.ok.inj hs
    obtain rfl := List.map_eq_nil_iff.mp hsame
    rfl
  | cons text texts ih =>
    obtain ⟨steps, state, tail, hline, htail, rfl⟩ := stepLines_cons_eq_ok hs
    obtain ⟨line, others, rfl, hfirst, hothers⟩ := List.map_eq_cons_iff.mp hsame
    obtain ⟨htokens, -⟩ := Prod.mk.inj hfirst
    rw [Document.bracesFrom, Occurrence.ofLines, List.filterMap_append,
      ih (n + 1) htail hothers, htokens]
    have hcontiguous : Step.Contiguous (Text.byteLength []) steps :=
      contiguous_of_stepThrough hline
    rw [Occurrence.filterMap_mark?_ofSteps n hcontiguous]
    rfl

/-- The tokens of lines that have been stepped through are, as far as brackets go, those that
occur. -/
theorem map_piece_of_stepLines
    (hsame : lines.map (fun line => (line.tokens, line.state)) =
      stepped.map fun visit => (Step.tokensFrom 0 visit.1, visit.2)) (n : Nat) :
    (lines.flatMap (·.tokens)).map Token.piece =
      (Occurrence.ofLines n stepped).map (·.step.piece) := by
  induction stepped generalizing n lines with
  | nil =>
    obtain rfl := List.map_eq_nil_iff.mp hsame
    rfl
  | cons visit stepped ih =>
    obtain ⟨line, others, rfl, hfirst, hothers⟩ := List.map_eq_cons_iff.mp hsame
    obtain ⟨htokens, -⟩ := Prod.mk.inj hfirst
    have hsteps : (Occurrence.ofSteps n [] visit.1).map (·.step.piece) =
        visit.1.map Step.piece := by
      rw [← congrArg (List.map Step.piece) (Occurrence.map_step_ofSteps n [] visit.1),
        List.map_map]
      rfl
    have hpieces : (Step.tokensFrom 0 visit.1).map Token.piece = visit.1.map Step.piece :=
      Step.map_tokensFrom (fun _ _ => rfl) 0 visit.1
    rw [List.flatMap_cons, List.map_append, Occurrence.ofLines, List.map_append, hsteps,
      ih hothers (n + 1), htokens, hpieces]

/-- **The brackets of a properly nested document are the bracket contexts on the stack**, behind
each of its tokens. -/
theorem exists_tracks_of_stepLines {baseColumn : Nat} {doc : Document}
    (hs : (start baseColumn).stepLines config texts = .ok stepped)
    (hsame : doc.lines.map (fun line => (line.tokens, line.state)) =
      stepped.map fun visit => (Step.tokensFrom 0 visit.1, visit.2))
    (hnested : doc.ProperlyNested) :
    ∃ last, Occurrence.Tracks [] (Occurrence.ofLines 0 stepped) last := by
  have hstart : Describes Level.start (start baseColumn).stack := .root rfl
  have hdescribed := described_of_stepLines hstart hs
  rw [← Occurrence.map_step_ofLines 0] at hdescribed
  rw [Document.ProperlyNested, map_piece_of_stepLines hsame 0] at hnested
  exact Occurrence.exists_tracks_of_described hdescribed rfl hnested

end State

/-! ## Folds and contexts -/

namespace Occurrence

variable {t opening closing : Occurrence} {opened : Context} {outer : ContextStack}
  {inside rest : List Occurrence} {last : List Context.Kind}

/-- An opening brace opens braces. -/
theorem opens_of_mark? {mark : Document.BraceMark} (h : t.mark? = some mark)
    (hopens : mark.brace = .opening) :
    t.Opens .brace ∧ t.line = mark.line ∧ t.token = mark.token := by
  obtain ⟨brace, hbrace, rfl⟩ := Option.map_eq_some_iff.mp h
  obtain rfl : brace = .opening := hopens
  refine ⟨?_, rfl, rfl⟩
  unfold Token.brace? at hbrace
  split at hbrace
  · rename_i hcategory
    split at hbrace
    · rename_i htext
      exact ⟨hcategory, '{', rfl, htext⟩
    · split at hbrace
      · cases hbrace
      · cases hbrace
  · cases hbrace

/-- What closes the context of braces is a closing brace. -/
theorem Closes.mark?_eq (h : closing.Closes opened outer inside) (hbrace : opened.kind = .brace) :
    closing.mark? = some ⟨closing.line, closing.token, .closing⟩ := by
  obtain ⟨c, hc, htext⟩ := h.closer
  have hpiece : closing.token.piece = (.punctuation, [c]) := Prod.ext h.category htext
  rw [mark?, Brackets.brace?_of_closer hc hpiece, if_pos hbrace]
  rfl

/-- The braces that have been read until a context of braces is closed are balanced. -/
theorem Closes.balanced (h : closing.Closes opened outer inside) (hbrace : opened.kind = .brace)
    (htracks : Tracks (opened.kind :: outer.brackets) (inside ++ closing :: rest) last) :
    Document.Balanced (inside.filterMap mark?) := by
  have hbracket : opened.kind.isBracket := by
    rw [hbrace]
    rfl
  obtain ⟨middle, hinside, hnext, -⟩ := tracks_append.mp htracks
  obtain ⟨inner, hmiddle, hdepth⟩ := hinside.exists_depthAfter? fun t ht =>
    (h.kept t ht).brackets_suffix hbracket
  -- the closer finds the braces innermost, so nothing has been left open in them
  have hclose : Brackets.close? .brace middle = some outer.brackets := by
    obtain ⟨c, hc, htext⟩ := h.closer
    rw [hbrace] at hc
    obtain rfl := Option.some.inj hc
    rw [ContextStack.brackets_of_afterClosing h.left, Step.piece, h.category, htext] at hnext
    exact hnext
  have hinner : inner = [] := by
    have heq := hmiddle.symm.trans (Brackets.close?_eq_some_iff.mp hclose)
    rw [hbrace] at heq
    exact List.append_left_eq_self.mp heq
  rw [hinner] at hdepth
  exact hdepth

end Occurrence

namespace Document

/-- Braces of which none closes more than has been opened hold no match. -/
theorem matching?_eq_none_of_depthAfter? {depth final : Nat} {marks : List BraceMark}
    (h : depthAfter? depth marks = some final) : matching? depth marks = none := by
  cases hmatching : matching? depth marks with
  | none => rfl
  | some closing =>
    obtain ⟨hcloses, inside, after, rfl, hdepth⟩ := matching?_eq_some_iff.mp hmatching
    rw [depthAfter?_append, hdepth, Option.bind_some, depthAfter?_closing_zero hcloses] at h
    cases h

variable {config : Config} {text : Text} {doc : Document}

/-- A document can be stepped through. -/
theorem exists_stepLines_of_highlight (h : highlight config text = .ok doc) :
    ∃ stepped, (State.start 0).stepLines config (Text.lines text) = .ok stepped ∧
      doc.lines.map (fun line => (line.tokens, line.state)) =
        stepped.map fun visit => (Step.tokensFrom 0 visit.1, visit.2) := by
  obtain ⟨lines, hlines, hdoc⟩ := Fault.bind_eq_ok.mp h
  obtain rfl := Fault.pure_eq_ok.mp hdoc
  exact State.exists_stepLines_of_readLines hlines

/-- **Folding and the contexts agree on properly nested text.**  Let every closing bracket of a
document close the innermost bracket that is open, and let an opening brace be the last one on its
line.  It puts a context of its own on the stack.

* If the line has a fold, this begins behind the brace, and it ends at a closing brace on a later
  line; the context stays on the stack behind every token up to that brace, which takes it off.
* If it has none, the context is taken off by a closing brace on the line itself, or it stays on the
  stack to the end. -/
theorem folds_agree_with_contexts (h : highlight config text = .ok doc)
    (hnested : doc.ProperlyNested) :
    ∃ stepped, (State.start 0).stepLines config (Text.lines text) = .ok stepped ∧
      doc.lines.map (fun line => (line.tokens, line.state)) =
        stepped.map (fun visit => (Step.tokensFrom 0 visit.1, visit.2)) ∧
      ∀ i t, doc.LastOpening i t →
        ∃ (before later : List Occurrence) (opening : Occurrence) (opened : Context)
            (outer : ContextStack),
          Occurrence.ofLines 0 stepped = before ++ opening :: later ∧
          opening.line = i ∧ opening.token = t ∧
          opening.step.state.stack = outer.push opened ∧ opened.kind = .brace ∧
          (∀ fold, doc.foldAt? i = some fold →
            fold.start = ⟨i, t.stop⟩ ∧
            ∃ inside closing rest, later = inside ++ closing :: rest ∧
              closing.Closes opened outer inside ∧ i < closing.line ∧
              fold.stop = ⟨closing.line, closing.token.start⟩) ∧
          (doc.foldAt? i = none →
            (∃ inside closing rest, later = inside ++ closing :: rest ∧
              closing.Closes opened outer inside ∧ closing.line = i) ∨
            ∀ q ∈ later, q.step.state.stack.HasFrame opened outer) := by
  obtain ⟨stepped, hs, hsame⟩ := exists_stepLines_of_highlight h
  obtain ⟨last, htracks⟩ := State.exists_tracks_of_stepLines hs hsame hnested
  have hbraces := State.bracesFrom_of_stepLines 0 hs hsame
  refine ⟨stepped, hs, hsame, fun i t ht => ?_⟩
  -- the brace has its place among the tokens that occur, and its context its fate
  obtain ⟨marksBefore, behind, hmarks, hfold⟩ := ht.foldAt?_eq
  obtain ⟨before, others, htokens, rfl, hothers⟩ :=
    List.filterMap_eq_append_iff.mp (hbraces.symm.trans hmarks)
  obtain ⟨silent, opening, later, rfl, hsilent, hopening, rfl⟩ :=
    List.filterMap_eq_cons_iff.mp hothers
  rw [← List.append_assoc] at htokens
  obtain ⟨hopens, hline, htoken⟩ := Occurrence.opens_of_mark? hopening rfl
  obtain ⟨opened, outer, hstack, hbrace, hfate⟩ := State.fate_of_stepLines hs htokens hopens
  have hbracket : opened.kind.isBracket := by
    rw [hbrace]
    rfl
  have hlater : Occurrence.Tracks (opened.kind :: outer.brackets) later last := by
    rw [htokens] at htracks
    obtain ⟨middle, -, -, hlater⟩ := Occurrence.tracks_append.mp htracks
    rw [hstack, ContextStack.brackets_push_of_isBracket hbracket] at hlater
    exact hlater
  refine ⟨before ++ silent, later, opening, opened, outer, htokens, hline, htoken, hstack, hbrace,
    ?_⟩
  rcases hfate with hkept | ⟨inside, closing, rest, rfl, hcloses⟩
  · -- the counter stays above zero
    obtain ⟨inner, -, hdepth⟩ := hlater.exists_depthAfter? fun q hq =>
      (hkept q hq).brackets_suffix hbracket
    have hnone : doc.foldAt? i = none := by
      rw [hfold, matching?_eq_none_of_depthAfter? hdepth]
      rfl
    refine ⟨fun fold hsome => ?_, fun _ => .inr hkept⟩
    cases hnone.symm.trans hsome
  · -- the counter comes back to zero right before the closer
    have hclosing := hcloses.mark?_eq hbrace
    have hmatching : matching? 0 ((inside ++ closing :: rest).filterMap Occurrence.mark?) =
        some ⟨closing.line, closing.token, .closing⟩ := by
      refine matching?_eq_some_iff.mpr ⟨rfl, inside.filterMap Occurrence.mark?,
        rest.filterMap Occurrence.mark?, ?_, hcloses.balanced hbrace hlater⟩
      rw [List.filterMap_append, List.filterMap_cons_some hclosing]
    have hplace := (matches_of_matching? hmarks rfl hmatching).before
      (pairwise_bracesFrom (divided_of_highlight h))
    have hle : i ≤ closing.line := by
      simp only [BraceMark.place, Position.Before] at hplace
      omega
    rw [hmatching, Option.bind_some] at hfold
    rw [hfold]
    by_cases hsame : closing.line = i
    · rw [if_pos hsame]
      refine ⟨fun fold hfold => ?_, fun _ => .inl ⟨inside, closing, rest, rfl, hcloses, hsame⟩⟩
      cases hfold
    · rw [if_neg hsame]
      refine ⟨fun fold hfold => ?_, fun hnone => ?_⟩
      · obtain rfl := Option.some.inj hfold
        exact ⟨rfl, inside, closing, rest, rfl, hcloses, by omega, rfl⟩
      · cases hnone

/-- Braces between other brackets, in statements and in a string.  Line 0 opens braces that go on to
line 3, with others in them; the last braces on line 2 are closed there, and those on line 4 are
not closed at all. -/
theorem folds_agree_with_contexts_in_brackets :
    let text : Text := ("f (x \x7b\n" ++ "  g \"\x7d\" \x7b h \x7d [ \x7b\n" ++
      "  \x7d ]; \x7by\x7d\n" ++ "\x7d )\n" ++ "z \x7b\n" ++ "w").toList
    let fold : Fold := ⟨⟨0, 6⟩, ⟨3, 0⟩⟩
    ∃ doc stepped, highlight {} text = .ok doc ∧ doc.ProperlyNested ∧
      (State.start 0).stepLines {} (Text.lines text) = .ok stepped ∧
      doc.foldAt? 0 = some fold ∧ doc.foldAt? 2 = none ∧
      (∃ (before inside rest : List Occurrence) (opening closing : Occurrence) (opened : Context)
          (outer : ContextStack),
        Occurrence.ofLines 0 stepped = before ++ opening :: (inside ++ closing :: rest) ∧
        opening.token = ⟨.punctuation, 5, ['{']⟩ ∧
        opening.step.state.stack = outer.push opened ∧ closing.Closes opened outer inside ∧
        fold.stop = ⟨closing.line, closing.token.start⟩) ∧
      ∃ (before later : List Occurrence) (opening : Occurrence) (opened : Context)
          (outer : ContextStack),
        Occurrence.ofLines 0 stepped = before ++ opening :: later ∧
        opening.token = ⟨.punctuation, 7, ['{']⟩ ∧
        opening.step.state.stack = outer.push opened ∧
        ((∃ inside closing rest, later = inside ++ closing :: rest ∧
          closing.Closes opened outer inside ∧ closing.line = 2) ∨
          ∀ q ∈ later, q.step.state.stack.HasFrame opened outer) := by
  intro text fold
  let brace : Token := ⟨.punctuation, 5, ['{']⟩
  let brace' : Token := ⟨.punctuation, 7, ['{']⟩
  let before : List Token := [⟨.atom, 0, ['f']⟩, ⟨.unstyled, 1, [' ']⟩, ⟨.punctuation, 2, ['(']⟩,
    ⟨.atom, 3, ['x']⟩, ⟨.unstyled, 4, [' ']⟩]
  let before' : List Token := [⟨.unstyled, 0, [' ', ' ']⟩, ⟨.punctuation, 2, ['}']⟩,
    ⟨.unstyled, 3, [' ']⟩, ⟨.punctuation, 4, [']']⟩, ⟨.punctuation, 5, [';']⟩,
    ⟨.unstyled, 6, [' ']⟩]
  let after' : List Token := [⟨.atom, 8, ['y']⟩, ⟨.punctuation, 9, ['}']⟩]
  obtain ⟨doc, hdoc, hnested, hfold, hfold', htokens, htokens'⟩ := Fault.exists_eq_ok_of_any
    (x := highlight {} text)
    (p := fun doc => doc.ProperlyNested ∧ doc.foldAt? 0 = some fold ∧ doc.foldAt? 2 = none ∧
      doc.lines[0]?.map (·.tokens) = some (before ++ brace :: []) ∧
      doc.lines[2]?.map (·.tokens) = some (before' ++ brace' :: after')) (by decide +kernel)
  obtain ⟨line, hline, hsplit⟩ := Option.map_eq_some_iff.mp htokens
  obtain ⟨line', hline', hsplit'⟩ := Option.map_eq_some_iff.mp htokens'
  have hlast : doc.LastOpening 0 brace := ⟨line, before, [], hline, hsplit, rfl, nofun⟩
  have hlast' : doc.LastOpening 2 brace' :=
    ⟨line', before', after', hline', hsplit', rfl, by decide⟩
  obtain ⟨stepped, hs, -, hagree⟩ := folds_agree_with_contexts hdoc hnested
  refine ⟨doc, stepped, hdoc, hnested, hs, hfold, hfold', ?_, ?_⟩
  · obtain ⟨before, later, opening, opened, outer, htokens, -, htoken, hstack, -, hsome, -⟩ :=
      hagree 0 brace hlast
    obtain ⟨-, inside, closing, rest, rfl, hcloses, -, hstop⟩ := hsome fold hfold
    exact ⟨before, inside, rest, opening, closing, opened, outer, htokens, htoken, hstack,
      hcloses, hstop⟩
  · obtain ⟨before, later, opening, opened, outer, htokens, -, htoken, hstack, -, -, hnone⟩ :=
      hagree 2 brace' hlast'
    exact ⟨before, later, opening, opened, outer, htokens, htoken, hstack, hnone hfold'⟩

end Document
end EditorMode
