import EditorMode.Proofs.Effect

/-! # Where contexts come from

A context is a record of one token: of the place where the token stands, and of what followed it.
`OpenedBy` says so without looking at how states are made, by the texts of the lines and the tokens
that have been read from them.  The kind of the context is settled by the token, its column by what
stands before the token in its line, and its alignment by what came first after it, the next
significant token or the next line.

`Provenance` follows the stack from the innermost context to the root: each context has been opened
by a token, and what is under it by earlier ones.  `Provenance.step` is what reading does to it,
since reading on decides at most the innermost alignment and takes contexts off the top.  The main
result, `provenance_of_readLines`, has it behind every token and behind every line of a document. -/

namespace EditorMode

/-! ## Occurrences -/

/-- A token in a run over lines: the number of its line, what stands before it there, and the step
that reads it. -/
structure Occurrence where
  line : Nat
  before : Text
  step : Step

namespace Occurrence

/-- The tokens of the rest of a line, behind what stands before them. -/
def ofSteps (line : Nat) (before : Text) : List Step → List Occurrence
  | [] => []
  | step :: steps => ⟨line, before, step⟩ :: ofSteps line (before ++ step.text) steps

/-- The tokens of lines that are numbered from `line` on. -/
def ofLines (line : Nat) : List (List Step × State) → List Occurrence
  | [] => []
  | visit :: visits => ofSteps line [] visit.1 ++ ofLines (line + 1) visits

/-- White space and comments do not count. -/
def isSignificant (t : Occurrence) : Bool := t.step.category.isSignificant

/-- How a context that the token has opened is aligned when the tokens `later` have followed and
`now` is the last line that has begun. -/
def alignment (now : Nat) (later : List Occurrence) (t : Occurrence) : Context.Alignment :=
  match later.find? isSignificant with
  | some next => if next.line = t.line then .aligned else .hanging
  | none => if now = t.line then .undecided else .hanging

section Alignment

variable {now : Nat} {later : List Occurrence} {t next : Occurrence}

/-- Only the first significant token that follows counts. -/
theorem alignment_append_of_mem (hnext : next ∈ later) (hsignificant : next.isSignificant)
    (now' : Nat) (more : List Occurrence) :
    t.alignment now' (later ++ more) = t.alignment now later := by
  obtain ⟨first, hfirst⟩ : ∃ first, later.find? isSignificant = some first :=
    Option.isSome_iff_exists.mp (List.find?_isSome.mpr ⟨next, hnext, hsignificant⟩)
  rw [alignment, alignment, List.find?_append, hfirst]
  rfl

theorem alignment_append_of_not_significant (h : ¬ next.isSignificant) :
    t.alignment now (later ++ [next]) = t.alignment now later := by
  have hnone : [next].find? isSignificant = none := by simpa using h
  rw [alignment, alignment, List.find?_append, hnone, Option.or_none]

/-- A significant token on the current line decides what has been undecided. -/
theorem alignment_append_of_significant (h : next.isSignificant) (hline : next.line = now) :
    t.alignment now (later ++ [next]) =
      if t.alignment now later = .undecided then .aligned else t.alignment now later := by
  have hsome : [next].find? isSignificant = some next := by simpa using h
  rw [alignment, alignment, List.find?_append, hsome]
  cases later.find? isSignificant with
  | none =>
    show (if next.line = t.line then _ else _) = _
    rw [hline]
    split
    · rfl
    · rfl
  | some first =>
    dsimp only [Option.some_or]
    split
    · rfl
    · rfl

/-- So does the beginning of a later line. -/
theorem alignment_of_lt {now' : Nat} (h : t.line < now') :
    t.alignment now' later =
      if t.alignment now later = .undecided then .hanging else t.alignment now later := by
  have hne : now' ≠ t.line := by omega
  rw [alignment, alignment]
  cases later.find? isSignificant with
  | none =>
    dsimp only
    rw [if_neg hne]
    split
    · rfl
    · rfl
  | some first =>
    dsimp only
    split
    · rfl
    · rfl

end Alignment
end Occurrence

/-! ## What a context records -/

/-- The tokens that begin a context of a kind. -/
def Context.Kind.BegunBy (c : Category) (w : Text) : Context.Kind → Prop
  | .top => False
  | .statement => c ≠ .punctuation
  | .paren => c = .punctuation ∧ w = ['(']
  | .bracket => c = .punctuation ∧ w = ['[']
  | .brace => c = .punctuation ∧ w = ['\x7b']

/-- `n` is the indentation of a line, which is line `last` or an earlier one. -/
def Column.IsIndentUpTo (config : Config) (texts : List Text) (last n : Nat) : Prop :=
  ∃ i ≤ last, ∃ text, texts[i]? = some text ∧
    Column.count (Text.leadingBlank text) config.tabSize = .ok n

/-- **A context is the record of a token.**  It has been put on the contexts `below` by the token
`t`, behind which the tokens `later` have been read; line `now` is the last that has begun. -/
structure Context.OpenedBy (config : Config) (texts : List Text) (now : Nat) (c : Context)
    (below : ContextStack) (t : Occurrence) (later : List Occurrence) : Prop where
  significant : t.isSignificant
  kind : c.kind.BegunBy t.step.category t.step.text
  place : ∃ behind, texts[t.line]? = some (t.before ++ (t.step.text ++ behind))
  column : Column.count t.before config.tabSize = .ok c.column
  /-- A context is aligned if the next significant token follows on the same line, undecided as long
  as neither a significant token nor a line has followed, and hanging otherwise. -/
  alignment : c.alignment = t.alignment now later
  baseIndent : Column.IsIndentUpTo config texts t.line c.baseIndent
  /-- Behind the token, it is the innermost context, and nothing has decided its alignment. -/
  pushed : t.step.state.stack = below.push { c with alignment := .undecided }
  /-- It has been open ever since. -/
  kept : ∀ q ∈ later, below.depth < q.step.state.stack.depth

/-- **The provenance of a stack.**  The root is the document's; every other context has been opened
by one of the first `bound` tokens of the history, and what is under it by tokens before that. -/
inductive ContextStack.Provenance (config : Config) (texts : List Text) (baseColumn now : Nat)
    (history : List Occurrence) : Nat → ContextStack → Prop where
  | root {bound : Nat} : Provenance config texts baseColumn now history bound (.ofBase baseColumn)
  | push {bound i : Nat} {t : Occurrence} {c : Context} {below : ContextStack} (hi : i < bound)
      (ht : history[i]? = some t)
      (hc : c.OpenedBy config texts now below t (history.drop (i + 1)))
      (h : Provenance config texts baseColumn now history i below) :
      Provenance config texts baseColumn now history bound (below.push c)

variable {config : Config} {texts : List Text} {baseColumn now now' : Nat}
  {history new : List Occurrence}

/-- A lexeme that opens a context is a token that begins one of this kind. -/
theorem Lexeme.begunBy {extraAtoms : WordSet} {pending after : Option Construct} {w rest : Text}
    {c : Category} {kind : Context.Kind} (h : Lexeme extraAtoms pending w rest c after)
    (hopens : Context.Kind.ofMark? (mark? c w) = some kind) : kind.BegunBy c w := by
  cases hmark : mark? c w with
  | none =>
    rw [hmark] at hopens
    obtain rfl := Option.some.inj hopens
    exact h.mark?_eq_none_iff.mp hmark
  | some d =>
    rw [hmark] at hopens
    obtain ⟨rfl, rfl⟩ := h.mark?_eq_some_iff.mp hmark
    have hopener : Context.Kind.ofOpener? d = some kind := hopens
    unfold Context.Kind.ofOpener? at hopener
    split at hopener
    · obtain rfl := Option.some.inj hopener
      exact ⟨rfl, rfl⟩
    · obtain rfl := Option.some.inj hopener
      exact ⟨rfl, rfl⟩
    · obtain rfl := Option.some.inj hopener
      exact ⟨rfl, rfl⟩
    · cases hopener

theorem Column.IsIndentUpTo.mono {m n last : Nat} (h : IsIndentUpTo config texts m n)
    (hle : m ≤ last) : IsIndentUpTo config texts last n := by
  obtain ⟨i, hi, htext⟩ := h
  exact ⟨i, Nat.le_trans hi hle, htext⟩

/-- The record of a token when more tokens have been read, with the alignment that it has then. -/
theorem Context.OpenedBy.follow {c : Context} {below : ContextStack} {t : Occurrence}
    {later : List Occurrence} {a : Context.Alignment}
    (h : c.OpenedBy config texts now below t later) (ha : a = t.alignment now' (later ++ new))
    (hkept : ∀ q ∈ new, below.depth < q.step.state.stack.depth) :
    Context.OpenedBy config texts now' { c with alignment := a } below t (later ++ new) where
  significant := h.significant
  kind := h.kind
  place := h.place
  column := h.column
  alignment := ha
  baseIndent := h.baseIndent
  pushed := h.pushed
  kept := List.forall_mem_append.mpr ⟨h.kept, hkept⟩

namespace ContextStack.Provenance

variable {bound : Nat} {s t : ContextStack}

theorem mono {bound' : Nat} (h : Provenance config texts baseColumn now history bound s)
    (hle : bound ≤ bound') : Provenance config texts baseColumn now history bound' s := by
  cases h with
  | root => exact .root
  | push hi ht hc h => exact .push (Nat.lt_of_lt_of_le hi hle) ht hc h

/-- The contexts that are left when others have been closed come from where they came before. -/
theorem suffix (h : Provenance config texts baseColumn now history bound s)
    (hsuffix : t.toList <:+ s.toList) : Provenance config texts baseColumn now history bound t := by
  induction h with
  | root =>
    rcases List.suffix_cons_iff.mp hsuffix with heq | hnil
    · obtain rfl : t = .ofBase baseColumn := toList_inj.mp heq
      exact .root
    · exact absurd (List.suffix_nil.mp hnil) t.toList_ne_nil
  | @push bound i opener c below hi ht hc h ih =>
    rcases List.suffix_cons_iff.mp hsuffix with heq | hbelow
    · obtain rfl : t = below.push c := toList_inj.mp heq
      exact .push hi ht hc h
    · exact (ih hbelow).mono (Nat.le_of_lt hi)

/-- **Reading on changes nothing under a significant token**: what was opened before it has found
its alignment. -/
theorem extend {top : Occurrence} (h : Provenance config texts baseColumn now history bound s)
    (htop : history[bound]? = some top) (hsignificant : top.isSignificant) (now' : Nat)
    (hkept : ∀ q ∈ new, s.depth ≤ q.step.state.stack.depth) :
    Provenance config texts baseColumn now' (history ++ new) bound s := by
  induction h generalizing top with
  | root => exact .root
  | @push bound i opener c below hi hopener hc h ih =>
    have hlength : i < history.length := (List.getElem?_eq_some_iff.mp hopener).1
    have hdrop : (history ++ new).drop (i + 1) = history.drop (i + 1) ++ new :=
      List.drop_append_of_le_length hlength
    have hopener' : (history ++ new)[i]? = some opener := by
      rw [List.getElem?_append_left hlength, hopener]
    have hmem : top ∈ history.drop (i + 1) := by
      apply List.mem_of_getElem?
      rw [List.getElem?_drop, Nat.add_sub_of_le hi, htop]
    have halignment : c.alignment = opener.alignment now' (history.drop (i + 1) ++ new) := by
      rw [hc.alignment, Occurrence.alignment_append_of_mem hmem hsignificant]
    have hbelow : ∀ q ∈ new, below.depth < q.step.state.stack.depth := hkept
    refine .push hi hopener' ?_ (ih hopener hc.significant fun q hq => Nat.le_of_lt (hbelow q hq))
    rw [hdrop]
    exact hc.follow halignment hbelow

/-- **One step.**  When reading on decides the innermost alignment, as the tokens that are read or
the lines that begin do for every token before them, and takes contexts off the top, what is left
has its provenance in the longer history. -/
theorem step (new : List Occurrence) (now' : Nat) (a : Context.Alignment)
    (h : Provenance config texts baseColumn now history history.length s)
    (hdecides : ∀ opener ∈ history, ∀ later, opener.alignment now' (later ++ new) =
      if opener.alignment now later = .undecided then a else opener.alignment now later)
    (hsuffix : t.toList <:+ (s.decideAlignment a).toList)
    (hkept : ∀ q ∈ new, t.depth ≤ q.step.state.stack.depth) :
    Provenance config texts baseColumn now' (history ++ new) history.length t := by
  generalize hbound : history.length = bound at h
  cases h with
  | root =>
    have hroot : (ofBase baseColumn).decideAlignment a = .ofBase baseColumn := if_neg nofun
    rw [hroot] at hsuffix
    have hstart : Provenance config texts baseColumn now' (history ++ new) bound
        (.ofBase baseColumn) := .root
    exact hstart.suffix hsuffix
  | @push _ i opener c below hi hopener hc h =>
    have hlength : i < history.length := (List.getElem?_eq_some_iff.mp hopener).1
    rw [decideAlignment_push] at hsuffix
    rcases List.suffix_cons_iff.mp hsuffix with heq | hbelow
    · -- no context is taken off
      obtain rfl : t = below.push _ := toList_inj.mp heq
      have hdrop : (history ++ new).drop (i + 1) = history.drop (i + 1) ++ new :=
        List.drop_append_of_le_length hlength
      have hopener' : (history ++ new)[i]? = some opener := by
        rw [List.getElem?_append_left hlength, hopener]
      have halignment := hdecides opener (List.mem_of_getElem? hopener) (history.drop (i + 1))
      rw [← hc.alignment] at halignment
      have hkept' : ∀ q ∈ new, below.depth < q.step.state.stack.depth := hkept
      refine .push hi hopener' ?_
        (h.extend hopener hc.significant now' fun q hq => Nat.le_of_lt (hkept' q hq))
      rw [hdrop]
      exact hc.follow halignment.symm hkept'
    · exact ((h.suffix hbelow).extend hopener hc.significant now' hkept).mono (Nat.le_of_lt hi)

/-- The last token of the history has put a context on the stack. -/
theorem opened {opener : Occurrence} {c : Context}
    (h : Provenance config texts baseColumn now (history ++ [opener]) history.length s)
    (hc : c.OpenedBy config texts now s opener []) :
    Provenance config texts baseColumn now (history ++ [opener]) (history ++ [opener]).length
      (s.push c) := by
  have hlast : (history ++ [opener]).drop (history.length + 1) = [] :=
    List.drop_eq_nil_of_le (by simp)
  refine .push (by simp) List.getElem?_concat_length ?_ h
  rw [hlast]
  exact hc

/-- The base indents are indentations of lines that have begun. -/
theorem isIndentUpTo {c : Context} (h : Provenance config texts baseColumn now history bound s)
    (hlines : ∀ t ∈ history, t.line ≤ now) (hc : c ∈ s.toList) (hkind : c.kind ≠ .top) :
    Column.IsIndentUpTo config texts now c.baseIndent := by
  induction h with
  | root =>
    obtain rfl := List.mem_singleton.mp hc
    exact absurd rfl hkind
  | @push bound i opener d below hi hopener hd h ih =>
    rcases List.mem_cons.mp hc with rfl | hbelow
    · exact hd.baseIndent.mono (hlines opener (List.mem_of_getElem? hopener))
    · exact ih hbelow

end ContextStack.Provenance

/-! ## Tokens -/

namespace State

/-- **The invariant behind the tokens of a line**, which is line `now` of the texts. -/
structure Traced (config : Config) (texts : List Text) (baseColumn now : Nat)
    (history : List Occurrence) (st : State) : Prop where
  stack : st.stack.Provenance config texts baseColumn now history history.length
  lines : ∀ t ∈ history, t.line ≤ now
  indented : Column.IsIndentUpTo config texts now st.indented

/-- The invariant before line `now`. -/
structure Awaits (config : Config) (texts : List Text) (baseColumn now : Nat)
    (history : List Occurrence) (st : State) : Prop where
  stack : (st.stack.decideAlignment .hanging).Provenance config texts baseColumn now history
    history.length
  lines : ∀ t ∈ history, t.line < now

variable {st st' : State}

theorem awaits_start (config : Config) (texts : List Text) (baseColumn : Nat) :
    Awaits config texts baseColumn 0 [] (start baseColumn) where
  stack := .root
  lines := nofun

/-- The next line decides the alignment that its predecessor has left undecided. -/
theorem Traced.awaits (h : Traced config texts baseColumn now history st) :
    Awaits config texts baseColumn (now + 1) history st where
  stack := by
    have hdecides : ∀ opener ∈ history, ∀ later, opener.alignment (now + 1) (later ++ []) =
        if opener.alignment now later = .undecided then .hanging
        else opener.alignment now later := by
      intro opener hopener later
      rw [List.append_nil]
      exact Occurrence.alignment_of_lt (Nat.lt_succ_of_le (h.lines opener hopener))
    have hstep := h.stack.step [] (now + 1) .hanging hdecides (List.suffix_refl _) nofun
    rwa [List.append_nil] at hstep
  lines := fun t ht => Nat.lt_succ_of_le (h.lines t ht)

/-- Entering a line makes its indentation the current one. -/
theorem Awaits.traced {entered : State} (h : Awaits config texts baseColumn now history st)
    (hstack : entered.stack = st.stack.decideAlignment .hanging)
    (hindented : Column.IsIndentUpTo config texts now entered.indented) :
    Traced config texts baseColumn now history entered where
  stack := hstack ▸ h.stack
  lines := fun t ht => Nat.le_of_lt (h.lines t ht)
  indented := hindented

/-- The base indents stay indentations of lines that have begun, whatever alignment is decided. -/
theorem Traced.isIndentUpTo {a : Context.Alignment} {c : Context}
    (h : Traced config texts baseColumn now history st)
    (hc : c ∈ (st.stack.decideAlignment a).toList) (hkind : c.kind ≠ .top) :
    Column.IsIndentUpTo config texts now c.baseIndent := by
  obtain ⟨d, hd, heq⟩ := ContextStack.exists_mem_of_mem_decideAlignment hc
  have hdkind : d.kind ≠ .top := by
    rw [heq] at hkind
    exact hkind
  have hindent := h.stack.isIndentUpTo h.lines hd hdkind
  rw [heq]
  exact hindent

/-- What a significant token on the current line leaves of the stack has its provenance in the
history with this token. -/
theorem Traced.provenance_append {t : Occurrence} {left : ContextStack}
    (h : Traced config texts baseColumn now history st) (hline : t.line = now)
    (hsignificant : t.isSignificant)
    (hsuffix : left.toList <:+ (st.stack.decideAlignment .aligned).toList)
    (hdepth : left.depth ≤ t.step.state.stack.depth) :
    left.Provenance config texts baseColumn now (history ++ [t]) history.length := by
  have hdecides : ∀ opener ∈ history, ∀ later, opener.alignment now (later ++ [t]) =
      if opener.alignment now later = .undecided then .aligned else opener.alignment now later :=
    fun opener _ later => Occurrence.alignment_append_of_significant hsignificant hline
  exact h.stack.step [t] now .aligned hdecides hsuffix (List.forall_mem_singleton.mpr hdepth)

/-- **A significant token** on the current line.  It has its place there and its column; the effect
is what it does once it has decided the innermost alignment. -/
theorem Effect.traced {entered : State} {column : Nat} {mark : Option Char} {t : Occurrence}
    (heffect : Effect column mark (entered.decideAlignment .aligned) t.step.state)
    (h : Traced config texts baseColumn now history entered) (hline : t.line = now)
    (hsignificant : t.isSignificant)
    (hkind : ∀ kind, Context.Kind.ofMark? mark = some kind →
      kind.BegunBy t.step.category t.step.text)
    (hplace : ∃ behind, texts[t.line]? = some (t.before ++ (t.step.text ++ behind)))
    (hcolumn : Column.count t.before config.tabSize = .ok column) :
    Traced config texts baseColumn now (history ++ [t]) t.step.state := by
  have hlines : ∀ q ∈ history ++ [t], q.line ≤ now :=
    List.forall_mem_append.mpr ⟨h.lines, List.forall_mem_singleton.mpr (Nat.le_of_eq hline)⟩
  have hlength : history.length ≤ (history ++ [t]).length := by simp
  rcases heffect.opens_or_leaves with
    ⟨kind, hmark, hstack, hindented⟩ |
      ⟨hsuffix, hindented | ⟨bracket, hbracket, hisBracket, hindented⟩⟩
  · refine ⟨?_, hlines, hindented ▸ h.indented⟩
    have hdepth : (entered.stack.decideAlignment .aligned).depth ≤ t.step.state.stack.depth := by
      rw [hstack]
      exact Nat.le_succ _
    have hbelow := h.provenance_append hline hsignificant (List.suffix_refl _) hdepth
    rw [hstack]
    refine hbelow.opened ⟨hsignificant, hkind kind hmark, hplace, hcolumn, ?_, ?_, hstack, nofun⟩
    · exact (if_pos hline.symm).symm
    · rw [hline]
      show Column.IsIndentUpTo config texts now
        (if (entered.stack.decideAlignment .aligned).top.kind = .statement then
          (entered.stack.decideAlignment .aligned).top.baseIndent else entered.indented)
      split
      · rename_i hstatement
        refine h.isIndentUpTo (ContextStack.top_mem_toList _) ?_
        rw [hstatement]
        nofun
      · exact h.indented
  · have hleft := h.provenance_append hline hsignificant hsuffix (Nat.le_refl _)
    exact ⟨hleft.mono hlength, hlines, hindented ▸ h.indented⟩
  · have hleft := h.provenance_append hline hsignificant hsuffix (Nat.le_refl _)
    exact ⟨hleft.mono hlength, hlines,
      hindented ▸ h.isIndentUpTo hbracket (Context.Kind.ne_of_isBracket hisBracket).1⟩

/-- A token that is not significant leaves the record as it is. -/
theorem Traced.append_silent {t : Occurrence} (h : Traced config texts baseColumn now history st)
    (hline : t.line = now) (hsilent : ¬ t.isSignificant)
    (hstack : t.step.state.stack = st.stack) (hindented : t.step.state.indented = st.indented) :
    Traced config texts baseColumn now (history ++ [t]) t.step.state where
  stack := by
    have hdecides : ∀ opener ∈ history, ∀ later, opener.alignment now (later ++ [t]) =
        if opener.alignment now later = .undecided then .undecided
        else opener.alignment now later := by
      intro opener hopener later
      rw [Occurrence.alignment_append_of_not_significant hsilent]
      split
      · assumption
      · rfl
    have hsuffix : st.stack.toList <:+ (st.stack.decideAlignment .undecided).toList :=
      st.stack.decideAlignment_undecided.symm ▸ List.suffix_refl _
    have hdepth : st.stack.depth ≤ t.step.state.stack.depth :=
      Nat.le_of_eq (congrArg ContextStack.depth hstack.symm)
    rw [hstack]
    exact (h.stack.step [t] now .undecided hdecides hsuffix
      (List.forall_mem_singleton.mpr hdepth)).mono (by simp)
  lines := List.forall_mem_append.mpr ⟨h.lines, List.forall_mem_singleton.mpr (Nat.le_of_eq hline)⟩
  indented := hindented ▸ h.indented

/-- **One token.**  The first token of a line finds it waiting, and the others the invariant. -/
theorem traced_tokenize {before rest : Text} {step : Step} (hnested : Nested baseColumn st.stack)
    (htext : texts[now]? = some (before ++ rest)) (hne : rest ≠ [])
    (hbegin : before = [] → Awaits config texts baseColumn now history st)
    (hinside : before ≠ [] → Traced config texts baseColumn now history st)
    (h : st.tokenize config (before ++ rest) (Text.byteLength before) = .ok step) :
    Traced config texts baseColumn now (history ++ [⟨now, before, step⟩]) step.state := by
  obtain ⟨left, hleft, -, -⟩ := exists_left_of_tokenize hne h
  obtain ⟨s, next, hstands, hline, htab, hlexeme, rfl, ht, hword⟩ :=
    exists_cursor_of_tokenize_append before h
  obtain ⟨entered, hentered, heffect⟩ := effect_token hne hlexeme hnested ht
  have htraced : Traced config texts baseColumn now history entered := by
    rcases eq_of_enterLine_of_standsAfter hstands hlexeme hentered with
      ⟨hnil, hstack, hindented⟩ | ⟨hmore, rfl⟩
    · refine (hbegin hnil).traced hstack ⟨now, Nat.le_refl _, _, htext, ?_⟩
      rw [Cursor.indentation, hline, htab] at hindented
      exact hindented
    · exact hinside hmore
  rcases heffect with ⟨hsignificant, heffect⟩ | ⟨hsilent, hstack, hindented⟩
  · have hlex := lexeme_of_token hne hlexeme ht
    rw [← hword] at heffect hlex
    have hcolumn : Column.count before config.tabSize = .ok s.column := by
      rw [Column.count, ← htab]
      exact hstands.column_eq
    exact Effect.traced (t := ⟨now, before, step⟩) heffect htraced rfl hsignificant
      (fun kind => hlex.begunBy) ⟨left, hleft ▸ htext⟩ hcolumn
  · exact htraced.append_silent (t := ⟨now, before, step⟩) rfl hsilent hstack hindented

end State

/-! ## Runs -/

/-- The invariant holds behind each of the tokens that follow a history. -/
def Occurrence.AllTraced (config : Config) (texts : List Text) (baseColumn : Nat)
    (history : List Occurrence) : List Occurrence → Prop
  | [] => True
  | t :: later =>
    State.Traced config texts baseColumn t.line (history ++ [t]) t.step.state ∧
      AllTraced config texts baseColumn (history ++ [t]) later

theorem Occurrence.allTraced_append {first others : List Occurrence} :
    AllTraced config texts baseColumn history (first ++ others) ↔
      AllTraced config texts baseColumn history first ∧
        AllTraced config texts baseColumn (history ++ first) others := by
  induction first generalizing history with
  | nil => simp [AllTraced]
  | cons t first ih =>
    rw [List.cons_append, AllTraced, AllTraced, ih, and_assoc, List.append_assoc]
    rfl

/-- The invariant behind one of the tokens. -/
theorem Occurrence.AllTraced.traced {before after : List Occurrence} {t : Occurrence}
    (h : AllTraced config texts baseColumn history (before ++ t :: after)) :
    State.Traced config texts baseColumn t.line (history ++ before ++ [t]) t.step.state :=
  (allTraced_append.mp h).2.1

namespace State

variable {st final : State}

/-- **The run over what is left of a line**, by induction on its steps. -/
theorem traced_of_stepFrom {before rest : Text} {steps : List Step}
    (hreach : Reachable baseColumn st) (htext : texts[now]? = some (before ++ rest))
    (hline : before ++ rest ≠ [])
    (hbegin : before = [] → Awaits config texts baseColumn now history st)
    (hinside : before ≠ [] → Traced config texts baseColumn now history st)
    (hs : st.stepFrom config (before ++ rest) (Text.byteLength before) = .ok (steps, final)) :
    Occurrence.AllTraced config texts baseColumn history (Occurrence.ofSteps now before steps) ∧
      Traced config texts baseColumn now (history ++ Occurrence.ofSteps now before steps)
        final := by
  induction steps generalizing before rest history st with
  | nil =>
    obtain ⟨hle, rfl⟩ := stepFrom_eq_ok_nil hs
    have hrest : rest = [] := Classical.byContradiction fun hne =>
      absurd hle (Nat.not_le.mpr (Text.byteLength_lt_append before hne))
    rw [hrest, List.append_nil] at hline
    rw [Occurrence.ofSteps, List.append_nil]
    exact ⟨trivial, hinside hline⟩
  | cons step steps ih =>
    obtain ⟨hlt, hfirst, hothers⟩ := stepFrom_eq_ok_cons hs
    have hne : rest ≠ [] := by
      rintro rfl
      rw [List.append_nil] at hlt
      exact absurd hlt (Nat.lt_irrefl _)
    have htraced := traced_tokenize hreach.sound.nested htext hne hbegin hinside hfirst
    obtain ⟨left, rfl, htextNe, hstop⟩ := exists_left_of_tokenize hne hfirst
    have hmore : before ++ step.text ≠ [] := List.append_ne_nil_of_right_ne_nil before htextNe
    rw [hstop] at hothers
    rw [← List.append_assoc] at htext hline hothers
    obtain ⟨hall, hfinal⟩ := ih (hreach.tokenize hfirst) htext hline
      (fun hnil => absurd hnil hmore) (fun _ => htraced) hothers
    rw [List.append_assoc] at hfinal
    exact ⟨⟨htraced, hall⟩, hfinal⟩

/-- **The run over a line.**  An empty line has no tokens, but begins and is measured. -/
theorem traced_of_stepThrough {text : Text} {steps : List Step} (hreach : Reachable baseColumn st)
    (htext : texts[now]? = some text) (h : Awaits config texts baseColumn now history st)
    (hs : st.stepThrough config text = .ok (steps, final)) :
    Occurrence.AllTraced config texts baseColumn history (Occurrence.ofSteps now [] steps) ∧
      Traced config texts baseColumn now (history ++ Occurrence.ofSteps now [] steps) final := by
  by_cases hnil : text = []
  · subst hnil
    obtain ⟨rfl, c, next, ht⟩ := steps_eq_nil_of_stepThrough_nil hs
    obtain ⟨entered, indented, hentered, hstate⟩ := entering_of_token rfl ht
    have hindentation := indentation_of_token_nil rfl ht
    rw [Occurrence.ofSteps, List.append_nil]
    refine ⟨trivial, h.traced ?_ ⟨now, Nat.le_refl _, [], htext, hindentation⟩⟩
    rcases eq_of_enterLine_of_standsAfter (Cursor.standsAfter_ofLine [] config.tabSize) rfl hentered
      with ⟨-, hstack, -⟩ | ⟨hmore, -⟩
    · rw [hstate]
      exact hstack
    · exact absurd rfl hmore
  · rw [stepThrough_of_ne_nil hnil] at hs
    exact traced_of_stepFrom hreach htext hnil (fun _ => h) (absurd rfl) hs

/-- **The run over lines**, by induction on them. -/
theorem traced_of_stepLines (seen : List Text) {rest : List Text}
    {stepped : List (List Step × State)}
    (hreach : Reachable baseColumn st) (htexts : texts = seen ++ rest)
    (h : Awaits config texts baseColumn seen.length history st)
    (hs : st.stepLines config rest = .ok stepped) :
    Occurrence.AllTraced config texts baseColumn history (Occurrence.ofLines seen.length stepped) ∧
      ∀ k visit, stepped[k]? = some visit →
        Traced config texts baseColumn (seen.length + k)
          (history ++ Occurrence.ofLines seen.length (stepped.take (k + 1))) visit.2 := by
  induction rest generalizing seen history st stepped with
  | nil =>
    obtain rfl := Except.ok.inj hs
    exact ⟨trivial, nofun⟩
  | cons text rest ih =>
    obtain ⟨steps, final, tail, hline, htail, rfl⟩ := stepLines_cons_eq_ok hs
    have htext : texts[seen.length]? = some text := by
      rw [htexts, List.getElem?_append_right (Nat.le_refl _), Nat.sub_self]
      rfl
    obtain ⟨hall, hfinal⟩ := traced_of_stepThrough hreach htext h hline
    have htexts' : texts = (seen ++ [text]) ++ rest := by
      rw [htexts, List.append_assoc]
      rfl
    have hlength : (seen ++ [text]).length = seen.length + 1 := List.length_append
    have hawaits := hfinal.awaits
    rw [← hlength] at hawaits
    obtain ⟨hothers, hlines⟩ :=
      ih (seen ++ [text]) (hreach.stepThrough hline) htexts' hawaits htail
    rw [hlength] at hothers hlines
    refine ⟨Occurrence.allTraced_append.mpr ⟨hall, hothers⟩, ?_⟩
    intro k visit hvisit
    cases k with
    | zero =>
      obtain rfl := Option.some.inj hvisit
      show Traced config texts baseColumn seen.length
        (history ++ (Occurrence.ofSteps seen.length [] steps ++ [])) final
      rw [List.append_nil]
      exact hfinal
    | succ k =>
      have htraced := hlines k visit hvisit
      rw [Nat.add_right_comm, List.append_assoc] at htraced
      exact htraced

/-- **Every context on the stack comes from a token.**  Let lines be read in order from the start
state, without overflow.  Behind each of their tokens, and behind each line, the contexts other than
the root are those that significant tokens of the run have opened, from the outermost to the
innermost in the order of the text, and none of them has been closed since.

* A bracket context has been opened by its bracket, and a statement by a token that is not
  punctuation.
* Its column is the width of what stands before the token in its line.
* It is aligned if the next significant token stands on the same line; undecided if there is no
  significant token behind it yet, and no later line has begun; and hanging otherwise.
* Its base indent is the indentation of the token's line or of an earlier one. -/
theorem provenance_of_readLines (config : Config) (baseColumn : Nat) (texts : List Text)
    (hover : Document.readLines config (start baseColumn) texts ≠ .error .columnOverflow) :
    ∃ lines stepped,
      Document.readLines config (start baseColumn) texts = .ok lines ∧
      (start baseColumn).stepLines config texts = .ok stepped ∧
      lines.map (fun line => (line.tokens, line.state)) =
        stepped.map (fun visit => (Step.tokensFrom 0 visit.1, visit.2)) ∧
      (∀ before t after, Occurrence.ofLines 0 stepped = before ++ t :: after →
        t.step.state.stack.Provenance config texts baseColumn t.line (before ++ [t])
          (before ++ [t]).length) ∧
      ∀ (n : Nat) (visit : List Step × State), stepped[n]? = some visit →
        visit.2.stack.Provenance config texts baseColumn n
          (Occurrence.ofLines 0 (stepped.take (n + 1)))
          (Occurrence.ofLines 0 (stepped.take (n + 1))).length := by
  obtain ⟨lines, hlines⟩ :=
    (Document.onlyOverflows_readLines config (start baseColumn) texts).exists_eq_ok hover
  obtain ⟨stepped, hstepped, hsame⟩ := exists_stepLines_of_readLines hlines
  obtain ⟨htokens, hends⟩ := traced_of_stepLines [] .start rfl
    (awaits_start config texts baseColumn) hstepped
  refine ⟨lines, stepped, hlines, hstepped, hsame, ?_, ?_⟩
  · intro before t after hsplit
    have htokens' : Occurrence.AllTraced config texts baseColumn [] (before ++ t :: after) :=
      hsplit ▸ htokens
    exact htokens'.traced.stack
  · intro n visit hvisit
    have hend := (hends n visit hvisit).stack
    rwa [List.nil_append, List.length_nil, Nat.zero_add] at hend

/-- A call that goes on behind an empty line and a comment with a bracket in it, and braces in it
that nothing has followed but another comment. -/
theorem provenance_of_readLines_comments :
    let texts : List Text := ["  f(".toList, [], "\t// [".toList, "   b \x7b // c".toList]
    let stack : ContextStack :=
      .push ⟨.brace, 3, 5, .undecided⟩ (.push ⟨.paren, 2, 3, .hanging⟩
        (.push ⟨.statement, 2, 2, .aligned⟩ (.ofBase 1)))
    ∃ stepped, (start 1).stepLines {} texts = .ok stepped ∧
      (stepped[3]?.map fun visit => visit.2.stack) = some stack ∧
      stack.Provenance {} texts 1 3 (Occurrence.ofLines 0 (stepped.take 4))
        (Occurrence.ofLines 0 (stepped.take 4)).length := by
  intro texts stack
  obtain ⟨lines, stepped, -, hstepped, -, -, hlines⟩ :=
    provenance_of_readLines {} 1 texts (Fault.ne_overflow_of_isOk (by decide +kernel))
  obtain ⟨stepped', hstepped', hstack⟩ : ∃ stepped', (start 1).stepLines {} texts = .ok stepped' ∧
      (stepped'[3]?.map fun visit => visit.2.stack) = some stack :=
    Fault.exists_eq_ok_of_any (by decide +kernel)
  obtain rfl : stepped = stepped' := Except.ok.inj (hstepped.symm.trans hstepped')
  refine ⟨stepped, hstepped, hstack, ?_⟩
  obtain ⟨visit, hvisit, hlast⟩ := Option.map_eq_some_iff.mp hstack
  rw [← hlast]
  exact hlines 3 visit hvisit

end State

end EditorMode
