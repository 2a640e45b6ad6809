import EditorMode.Proofs.Segmentation

/-! # The states that can be reached are well-formed

Reading may start and stop anywhere: a host reads single tokens at offsets of its choice, or whole
lines, with any configuration, from any state that it has kept.  What all the states so reached have
in common is said by `WellFormed`: of the root, of the contexts that stand on it, and of what may be
pending.

Its clauses hold each other up.  A statement takes its place on the innermost context only if that
is the document or a brace, so no statement lies on another; a context takes over the base indent
of the statement under it, and can do so because nothing else is put on a statement later; and it
is the token that puts one context on another that decides the alignment of the lower
one.  `Nested` is the invariant as a whole, with one condition (`Context.StandsOn`) on each context
and the one under it.  A token keeps it because it does one of two things (`OpensOrCloses`): it puts
one context on the stack, or it takes at most three off. -/

namespace EditorMode

/-! ## The invariant of the stack -/

/-- What holds of a context and the one directly under it. -/
structure Context.StandsOn (c below : Context) : Prop where
  /-- Only the root is the document. -/
  kind_ne_top : c.kind ≠ .top
  /-- Statements stand on the document or between braces. -/
  kind_below : c.kind = .statement → below.kind = .top ∨ below.kind = .brace
  /-- What stands in a statement has the statement's base indent. -/
  baseIndent_eq : below.kind = .statement → c.baseIndent = below.baseIndent
  /-- The lower context's alignment has been decided. -/
  decided : below.alignment ≠ .undecided

/-- No statement stands on another one. -/
theorem Context.StandsOn.kind_below_ne {c below : Context} (h : c.StandsOn below)
    (hstatement : c.kind = .statement) : below.kind ≠ .statement := by
  intro heq
  rcases h.kind_below hstatement with htop | hbrace
  · rw [heq] at htop
    cases htop
  · rw [heq] at hbrace
    cases hbrace

/-- **The stack of a document rooted at a column**: its root is as at the start, and each context
may stand on the one under it. -/
inductive Nested (baseColumn : Nat) : ContextStack → Prop where
  | root : Nested baseColumn (.ofBase baseColumn)
  | push {c : Context} {stack : ContextStack} (h : Nested baseColumn stack)
      (hc : c.StandsOn stack.top) : Nested baseColumn (stack.push c)

namespace ContextStack

/-- The second stack is what is left of the first when at most `n` contexts have been closed. -/
def ClosesTo (n : Nat) (s t : ContextStack) : Prop :=
  ∃ closed, s.toList = closed ++ t.toList ∧ closed.length ≤ n

section ClosesTo

variable {m n : Nat} {s t u : ContextStack}

theorem ClosesTo.refl (n : Nat) (s : ContextStack) : s.ClosesTo n s :=
  ⟨[], rfl, Nat.zero_le n⟩

theorem closesTo_of_push (c : Context) (s : ContextStack) : (s.push c).ClosesTo 1 s :=
  ⟨[c], rfl, Nat.le_refl 1⟩

theorem ClosesTo.trans (h : s.ClosesTo m t) (h' : t.ClosesTo n u) : s.ClosesTo (m + n) u := by
  obtain ⟨closed, hs, hm⟩ := h
  obtain ⟨closed', ht, hn⟩ := h'
  refine ⟨closed ++ closed', ?_, ?_⟩
  · rw [hs, ht, List.append_assoc]
  · rw [List.length_append]
    omega

theorem ClosesTo.mono (h : s.ClosesTo m t) (hmn : m ≤ n) : s.ClosesTo n t := by
  obtain ⟨closed, hs, hm⟩ := h
  exact ⟨closed, hs, Nat.le_trans hm hmn⟩

theorem ClosesTo.depth (h : s.ClosesTo n t) : t.depth ≤ s.depth ∧ s.depth ≤ t.depth + n := by
  obtain ⟨closed, hs, hn⟩ := h
  have hlength : s.depth = closed.length + t.depth := by
    rw [← length_toList, hs, List.length_append, length_toList]
  omega

end ClosesTo

/-- What can be made of a stack by a token: one context is put on it, where that may stand, or up to
three are taken off. -/
inductive OpensOrCloses (s : ContextStack) : ContextStack → Prop where
  | opens {c : Context} (hc : c.StandsOn s.top) : OpensOrCloses s (s.push c)
  | closes {t : ContextStack} (h : s.ClosesTo 3 t) : OpensOrCloses s t

theorem OpensOrCloses.depth {s t : ContextStack} (h : s.OpensOrCloses t) :
    t.depth ≤ s.depth + 1 ∧ s.depth ≤ t.depth + 3 := by
  cases h with
  | @opens c hc =>
    rw [show (s.push c).depth = s.depth + 1 from rfl]
    omega
  | closes h =>
    have := h.depth
    omega

/-- Deciding an alignment opens and closes nothing. -/
theorem depth_decideAlignment (a : Context.Alignment) (s : ContextStack) :
    (s.decideAlignment a).depth = s.depth := by
  rw [decideAlignment]
  split
  · cases s <;> rfl
  · rfl

end ContextStack

namespace Nested

variable {baseColumn n : Nat} {s t : ContextStack}

/-- The alignment of a context has no part in what stands under it. -/
theorem decideAlignment (a : Context.Alignment) (h : Nested baseColumn s) :
    Nested baseColumn (s.decideAlignment a) := by
  rw [ContextStack.decideAlignment]
  split
  · rename_i hundecided
    cases h with
    | root => cases hundecided
    | push h hc => exact .push h ⟨hc.kind_ne_top, hc.kind_below, hc.baseIndent_eq, hc.decided⟩
  · exact h

/-- Closing contexts leaves a stack of the document. -/
theorem closesTo (h : Nested baseColumn s) (hclose : s.ClosesTo n t) : Nested baseColumn t := by
  obtain ⟨closed, hs, -⟩ := hclose
  induction closed generalizing s with
  | nil =>
    rw [← ContextStack.toList_inj.mp hs]
    exact h
  | cons c closed ih =>
    cases h with
    | root => exact absurd (List.cons.inj hs).2.symm (by simp [ContextStack.toList_ne_nil])
    | push h hc => exact ih h (List.cons.inj hs).2

/-- **One step on the stack.** -/
theorem opensOrCloses (h : Nested baseColumn s) (ht : s.OpensOrCloses t) : Nested baseColumn t := by
  cases ht with
  | opens hc => exact .push h hc
  | closes hclose => exact h.closesTo hclose

/-- At most one statement lies on top. -/
theorem closesTo_dropStatements (h : Nested baseColumn s) : s.ClosesTo 1 s.dropStatements := by
  cases h with
  | root => exact .refl 1 _
  | @push c below h hc =>
    rw [ContextStack.dropStatements]
    split
    · rename_i hstatement
      -- under the statement lies the document or a brace, where dropping ends
      have hbelow : below.top.kind ≠ .statement := hc.kind_below_ne hstatement
      have hend : below.dropStatements = below := by
        cases below with
        | root d => rfl
        | push d stack => exact if_neg hbelow
      rw [hend]
      exact ContextStack.closesTo_of_push c below
    · exact .refl 1 _

end Nested

/-- Only a string leaves a string pending, and a quote has begun it or it was pending before. -/
theorem Lexeme.of_pending_string {extraAtoms : WordSet} {pending : Option Construct} {w rest : Text}
    {c : Category} {quote : Char} (h : Lexeme extraAtoms pending w rest c (some (.string quote))) :
    c = .string ∧ (pending = some (.string quote) ∨ quote = '\"' ∨ quote = '\x60') := by
  cases h with
  | resumed hne h =>
    cases h with
    | unfinished hopen => exact ⟨rfl, .inl rfl⟩
  | string hquote h =>
    cases h with
    | unfinished hopen => exact ⟨rfl, .inr hquote⟩
  | blockComment h => cases h

/-! ## What a token does to the stack -/

namespace State

variable {baseColumn : Nat} {st : State}

theorem closesTo_pop (st : State) : st.stack.ClosesTo 1 st.pop.stack := by
  cases hs : st.stack with
  | root c =>
    have hpop : st.pop.stack = .root c := by
      rw [pop, pop?, hs]
      exact hs
    rw [hpop]
    exact .refl 1 _
  | push c below =>
    have hpop : st.pop.stack = below := by
      rw [pop, pop?, hs]
      rfl
    rw [hpop]
    exact ContextStack.closesTo_of_push c below

theorem closesTo_popKind (kind : Context.Kind) (st : State) :
    st.stack.ClosesTo 1 (st.popKind kind).stack := by
  rw [popKind]
  split
  · exact closesTo_pop st
  · exact .refl 1 _

/-- A context that is opened may stand where it is put. -/
theorem opensOrCloses_push (st : State) (column : Nat) {kind : Context.Kind}
    (hdecided : st.stack.top.alignment ≠ .undecided) (hkind : kind ≠ .top)
    (hstatement : kind = .statement → st.stack.top.kind = .top ∨ st.stack.top.kind = .brace) :
    st.stack.OpensOrCloses (st.push column kind).stack :=
  .opens ⟨hkind, hstatement, fun hbelow => if_pos hbelow, hdecided⟩

/-- A closing brace ends a statement, its braces, and the statement around them. -/
theorem closesTo_closeBrace (h : Nested baseColumn st.stack) :
    st.stack.ClosesTo 3 ((st.dropStatements.popKind .brace).dropStatements).stack := by
  have hinner : st.stack.ClosesTo 1 st.dropStatements.stack := h.closesTo_dropStatements
  have hbraces : st.stack.ClosesTo 2 (st.dropStatements.popKind .brace).stack :=
    hinner.trans (closesTo_popKind .brace st.dropStatements)
  exact hbraces.trans (h.closesTo hbraces).closesTo_dropStatements

/-- **What a significant token does to the stack**, when it has decided the innermost context's
alignment. -/
theorem opensOrCloses_follow (column : Nat) (mark : Option Char) (h : Nested baseColumn st.stack) :
    (st.stack.decideAlignment .aligned).OpensOrCloses (st.follow column mark).stack := by
  have hdecided : (st.decideAlignment .aligned).stack.top.alignment ≠ .undecided :=
    ContextStack.decided_top_decideAlignment (by decide) st.stack
  have hnested : Nested baseColumn (st.decideAlignment .aligned).stack :=
    h.decideAlignment .aligned
  show (st.decideAlignment .aligned).stack.OpensOrCloses (st.follow column mark).stack
  unfold follow
  dsimp only
  generalize st.decideAlignment .aligned = decided at hdecided hnested
  split
  · -- a token that is not punctuation
    split
    · rename_i htop
      exact opensOrCloses_push decided column hdecided nofun fun _ => .inl htop
    · rename_i hbrace
      exact opensOrCloses_push decided column hdecided nofun fun _ => .inr hbrace
    · exact .closes (.refl 3 _)
  · -- a closing brace
    exact .closes (closesTo_closeBrace hnested)
  · split
    · -- a separator
      exact .closes ((closesTo_popKind .statement decided).mono (by decide))
    · split
      · -- an opening bracket
        rename_i kind hopener
        have hbracket : kind.isBracket :=
          Context.Kind.isBracket_iff_exists_opener.mpr ⟨_, hopener⟩
        refine opensOrCloses_push decided column hdecided ?_ ?_
        · rintro rfl
          cases hbracket
        · rintro rfl
          cases hbracket
      · -- another closing bracket, of the innermost context or not
        split
        · exact .closes ((closesTo_pop decided).mono (by decide))
        · exact .closes (.refl 3 _)

/-- A token that is not punctuation leaves a statement or a bracket on top: where there is none, it
begins a statement. -/
theorem kind_top_follow_none (column : Nat) (st : State) :
    (st.follow column none).stack.top.kind ≠ .top ∧
      (st.follow column none).stack.top.kind ≠ .brace := by
  unfold follow
  dsimp only
  split
  · exact ⟨nofun, nofun⟩
  · exact ⟨nofun, nofun⟩
  · rename_i htop hbrace
    exact ⟨htop, hbrace⟩

/-! ## Tokens -/

/-- Entering a line does no more to the stack than decide an alignment. -/
theorem stack_enterLine {s : Cursor} {entered : State} (h : st.enterLine s = .ok entered) :
    entered.stack = st.stack ∨ entered.stack = st.stack.decideAlignment .hanging := by
  rcases eq_of_enterLine h with ⟨-, rfl⟩ | ⟨-, indented, -, rfl⟩
  · exact .inl rfl
  · exact .inr rfl

/-- **What any token does to the stack**, when alignments have been decided. -/
theorem exists_opensOrCloses_token {config : Config} {s next : Cursor} {st' : State} {c : Category}
    (h : Nested baseColumn st.stack) (ht : st.token config s = .ok (c, next, st')) :
    ∃ decided, Nested baseColumn decided ∧ decided.depth = st.stack.depth ∧
      decided.OpensOrCloses st'.stack := by
  have enters : ∀ entered, st.enterLine s = .ok entered →
      Nested baseColumn entered.stack ∧ entered.stack.depth = st.stack.depth := by
    intro entered he
    rcases stack_enterLine he with hstack | hstack
    · rw [hstack]
      exact ⟨h, rfl⟩
    · rw [hstack]
      exact ⟨h.decideAlignment .hanging, ContextStack.depth_decideAlignment .hanging st.stack⟩
  by_cases hne : s.rest = []
  · obtain ⟨entered, indented, hentered, rfl⟩ := entering_of_token hne ht
    obtain ⟨hnested, hdepth⟩ := enters entered hentered
    exact ⟨entered.stack, hnested, hdepth, .closes (.refl 3 _)⟩
  · obtain ⟨entered, hentered, -, -, rfl⟩ := reading_of_token hne ht
    obtain ⟨hnested, hdepth⟩ := enters entered hentered
    generalize s.read config.extraAtoms st.pending = reading
    rw [afterReading]
    split
    · have hread : Nested baseColumn { entered with pending := reading.pending }.stack := hnested
      refine ⟨entered.stack.decideAlignment .aligned, hnested.decideAlignment .aligned, ?_,
        opensOrCloses_follow s.column reading.mark hread⟩
      rw [ContextStack.depth_decideAlignment, hdepth]
    · exact ⟨entered.stack, hnested, hdepth, .closes (.refl 3 _)⟩

/-- A token opens at most one context, and closes at most three. -/
theorem depth_token {config : Config} {s next : Cursor} {st' : State} {c : Category}
    (h : Nested baseColumn st.stack) (ht : st.token config s = .ok (c, next, st')) :
    st'.stack.depth ≤ st.stack.depth + 1 ∧ st.stack.depth ≤ st'.stack.depth + 3 := by
  obtain ⟨decided, -, hdepth, hchange⟩ := exists_opensOrCloses_token h ht
  rw [← hdepth]
  exact hchange.depth

/-! ## The invariant of the state -/

/-- The invariant that every token keeps. -/
structure Sound (baseColumn : Nat) (st : State) : Prop where
  nested : Nested baseColumn st.stack
  /-- A string is pending only if a quote began it, and it belongs to a statement or a bracket. -/
  pending_string : ∀ quote, st.pending = some (.string quote) →
    (quote = '\"' ∨ quote = '\x60') ∧ st.stack.top.kind ≠ .top ∧ st.stack.top.kind ≠ .brace

theorem sound_start (baseColumn : Nat) : Sound baseColumn (start baseColumn) where
  nested := .root
  pending_string := nofun

/-- **One step of the run.** -/
theorem Sound.token {config : Config} {s next : Cursor} {st' : State} {c : Category}
    (hlexeme : s.lexeme = []) (h : Sound baseColumn st)
    (ht : st.token config s = .ok (c, next, st')) : Sound baseColumn st' := by
  obtain ⟨decided, hnested, -, hchange⟩ := exists_opensOrCloses_token h.nested ht
  refine ⟨hnested.opensOrCloses hchange, ?_⟩
  by_cases hne : s.rest = []
  · obtain ⟨entered, indented, hentered, rfl⟩ := entering_of_token hne ht
    show ∀ quote, entered.pending = some (.string quote) →
      (quote = '\"' ∨ quote = '\x60') ∧
        entered.stack.top.kind ≠ .top ∧ entered.stack.top.kind ≠ .brace
    have hkind : entered.stack.top.kind = st.stack.top.kind := by
      rcases stack_enterLine hentered with hstack | hstack
      · rw [hstack]
      · rw [hstack, ContextStack.kind_top_decideAlignment]
    rw [pending_enterLine hentered, hkind]
    exact h.pending_string
  · obtain ⟨entered, -, -, -, rfl⟩ := reading_of_token hne ht
    obtain ⟨w, rest, c, after, hw, hread, -⟩ :=
      s.lexeme_read config.extraAtoms st.pending hne hlexeme
    intro quote hafter
    rw [pending_afterReading, hread] at hafter
    obtain rfl : after = some (.string quote) := hafter
    obtain ⟨rfl, hquote⟩ := hw.of_pending_string
    rw [hread]
    refine ⟨?_, kind_top_follow_none s.column { entered with pending := some (.string quote) }⟩
    rcases hquote with hresumed | hbegun
    · exact (h.pending_string quote hresumed).1
    · exact hbegun

/-! ## Reachable states -/

/-- **The states that can be reached** from the start state of a document rooted at a column, by
reading single tokens and whole lines: any of them, in any order, with any configurations. -/
inductive Reachable (baseColumn : Nat) : State → Prop where
  | start : Reachable baseColumn (start baseColumn)
  | tokenize {config : Config} {line : Text} {offset : Nat} {st : State} {step : Step}
      (h : Reachable baseColumn st) (ht : st.tokenize config line offset = .ok step) :
      Reachable baseColumn step.state
  | tokenizeLine {config : Config} {line : Text} {st final : State} {tokens : List Token}
      (h : Reachable baseColumn st) (ht : st.tokenizeLine config line = .ok (tokens, final)) :
      Reachable baseColumn final

/-- What all tokens keep, all that leads from the start state to a state keeps. -/
theorem KeptByTokens.reachable {P : State → Prop} (hkept : KeptByTokens (fun _ => True) P)
    (hstart : P (State.start baseColumn)) (h : Reachable baseColumn st) : P st := by
  induction h with
  | start => exact hstart
  | @tokenize config line offset st step h ht ih =>
    obtain ⟨s, hs, ht⟩ := Fault.bind_eq_ok.mp ht
    obtain ⟨⟨c, next, st'⟩, htoken, ht⟩ := Fault.bind_eq_ok.mp ht
    obtain rfl := Fault.pure_eq_ok.mp ht
    obtain ⟨before, -, -, hlexeme, -⟩ := Cursor.exists_standsAfter_of_ofOffset hs
    exact hkept hlexeme (fun _ => trivial) ih htoken
  | tokenizeLine h ht ih => exact hkept.tokenizeLine ht (fun _ _ => trivial) ih

theorem Reachable.sound (h : Reachable baseColumn st) : Sound baseColumn st :=
  KeptByTokens.reachable (fun _ _ _ _ _ _ hlexeme _ hst ht => hst.token hlexeme ht)
    (sound_start baseColumn) h

/-! ## Well-formed states -/

/-- **What a state is like in a document rooted at a column.**  Contexts are listed from the
innermost to the root. -/
structure WellFormed (baseColumn : Nat) (st : State) : Prop where
  /-- The outermost context is as at the start, -/
  root : st.stack.toList.getLast? =
    some { kind := .top, baseIndent := baseColumn, column := 0, alignment := .hanging }
  /-- and is the only one of its kind. -/
  kind_ne_top : ∀ c ∈ st.stack.toList.dropLast, c.kind ≠ .top
  depth_eq : st.stack.depth = st.stack.toList.length
  /-- A statement lies directly on the document or on a brace. -/
  under_statement : ∀ inner c outer, st.stack.toList = inner ++ c :: outer → c.kind = .statement →
    ∃ d, outer.head? = some d ∧ (d.kind = .top ∨ d.kind = .brace)
  /-- What lies directly on a statement has its base indent. -/
  on_statement : ∀ inner c d outer, st.stack.toList = inner ++ c :: d :: outer →
    d.kind = .statement → c.baseIndent = d.baseIndent
  /-- Only the innermost context's alignment can be undecided. -/
  decided : ∀ c ∈ st.stack.toList.tail, c.alignment ≠ .undecided
  /-- A pending string was begun by a quote, in a statement or a bracket. -/
  pending_string : ∀ quote, st.pending = some (.string quote) →
    (quote = '\"' ∨ quote = '\x60') ∧
      (st.stack.top.kind = .statement ∨ st.stack.top.kind = .paren ∨
        st.stack.top.kind = .bracket)

end State

namespace Nested

variable {baseColumn : Nat} {s : ContextStack}

theorem getLast?_toList (h : Nested baseColumn s) :
    s.toList.getLast? = some (Context.root baseColumn) := by
  induction h with
  | root => rfl
  | @push c stack h hc ih =>
    rw [ContextStack.toList_push, List.getLast?_cons, ih]
    rfl

theorem kind_ne_top (h : Nested baseColumn s) : ∀ c ∈ s.toList.dropLast, c.kind ≠ .top := by
  induction h with
  | root => simp [ContextStack.ofBase]
  | @push c stack h hc ih =>
    rw [ContextStack.toList_push, List.dropLast_cons_of_ne_nil stack.toList_ne_nil]
    intro d hd
    rcases List.mem_cons.mp hd with rfl | hd
    · exact hc.kind_ne_top
    · exact ih d hd

/-- A context of the stack is the root, or stands on the next one. -/
theorem standsOn {inner outer : List Context} {c : Context} (h : Nested baseColumn s)
    (hs : s.toList = inner ++ c :: outer) :
    (outer = [] ∧ c = Context.root baseColumn) ∨
      ∃ d, outer.head? = some d ∧ c.StandsOn d := by
  induction h generalizing inner with
  | root =>
    cases inner with
    | nil =>
      obtain ⟨rfl, rfl⟩ := List.cons.inj hs
      exact .inl ⟨rfl, rfl⟩
    | cons d inner => exact absurd (List.cons.inj hs).2 (by simp)
  | @push d stack h hd ih =>
    cases inner with
    | nil =>
      obtain ⟨rfl, rfl⟩ := List.cons.inj hs
      exact .inr ⟨stack.top, stack.head?_toList, hd⟩
    | cons e inner => exact ih (List.cons.inj hs).2

theorem decided (h : Nested baseColumn s) : ∀ c ∈ s.toList.tail, c.alignment ≠ .undecided := by
  induction h with
  | root => exact nofun
  | @push c stack h hc ih =>
    obtain ⟨others, hstack⟩ := List.head?_eq_some_iff.mp stack.head?_toList
    rw [hstack, List.tail_cons] at ih
    rw [ContextStack.toList_push, List.tail_cons, hstack]
    intro d hd
    rcases List.mem_cons.mp hd with rfl | hd
    · exact hc.decided
    · exact ih d hd

end Nested

namespace State

variable {baseColumn : Nat} {st : State}

theorem Sound.wellFormed (h : Sound baseColumn st) : WellFormed baseColumn st where
  root := h.nested.getLast?_toList
  kind_ne_top := h.nested.kind_ne_top
  depth_eq := st.stack.length_toList.symm
  under_statement := by
    intro inner c outer hstack hstatement
    rcases h.nested.standsOn hstack with ⟨-, rfl⟩ | ⟨d, hd, hc⟩
    · cases hstatement
    · exact ⟨d, hd, hc.kind_below hstatement⟩
  on_statement := by
    intro inner c d outer hstack hstatement
    rcases h.nested.standsOn hstack with ⟨hnil, -⟩ | ⟨d', hd, hc⟩
    · cases hnil
    · obtain rfl := Option.some.inj hd
      exact hc.baseIndent_eq hstatement
  decided := h.nested.decided
  pending_string := by
    intro quote hpending
    obtain ⟨hquote, htop, hbrace⟩ := h.pending_string quote hpending
    refine ⟨hquote, ?_⟩
    cases hkind : st.stack.top.kind with
    | top => exact absurd hkind htop
    | brace => exact absurd hkind hbrace
    | statement => exact .inl rfl
    | paren => exact .inr (.inl rfl)
    | bracket => exact .inr (.inr rfl)

/-- **Every state that can be reached is well-formed**, and any token that is read in it opens at
most one context and closes at most three. -/
theorem wellFormed_of_reachable (h : Reachable baseColumn st) :
    WellFormed baseColumn st ∧
      ∀ (config : Config) (s next : Cursor) (c : Category) (st' : State),
        st.token config s = .ok (c, next, st') →
          st'.stack.depth ≤ st.stack.depth + 1 ∧ st.stack.depth ≤ st'.stack.depth + 3 :=
  ⟨h.sound.wellFormed, fun _ _ _ _ _ ht => depth_token h.sound.nested ht⟩

/-- A line that leaves a string pending in a statement in braces in a statement, and a token in the
middle of another line, with other tab stops, that closes the string.  The brace that follows closes
three contexts. -/
theorem wellFormed_of_reachable_restarted :
    let st : State :=
      { pending := none
        stack := .push ⟨.statement, 2, 9, .aligned⟩ (.push ⟨.brace, 2, 4, .aligned⟩
          (.push ⟨.statement, 2, 2, .aligned⟩ (.ofBase 3)))
        indented := 2
        atLineStart := false }
    Reachable 3 st ∧ WellFormed 3 st ∧
      ∃ c next st', st.token {} (Cursor.ofLine ['\x7d'] 4) = .ok (c, next, st') ∧
        st'.stack.depth ≤ st.stack.depth + 1 ∧ st.stack.depth ≤ st'.stack.depth + 3 := by
  intro st
  have hline : ((start 3).tokenizeLine {} "  f \x7b a, g \x60".toList).toOption =
      some ([⟨.unstyled, 0, [' ', ' ']⟩, ⟨.atom, 2, ['f']⟩, ⟨.unstyled, 3, [' ']⟩,
        ⟨.punctuation, 4, ['\x7b']⟩, ⟨.unstyled, 5, [' ']⟩, ⟨.atom, 6, ['a']⟩,
        ⟨.punctuation, 7, [',']⟩, ⟨.unstyled, 8, [' ']⟩, ⟨.atom, 9, ['g']⟩,
        ⟨.unstyled, 10, [' ']⟩, ⟨.string, 11, ['\x60']⟩],
        { st with pending := some (.string '\x60') }) := by decide +kernel
  have hstep : ({ st with pending := some (.string '\x60') }.tokenize { tabSize := 8 }
      "x\x60 h \x7d".toList 1).toOption = some ⟨.string, ['\x60'], 2, st⟩ := by decide +kernel
  have hreach : Reachable 3 st :=
    .tokenize (.tokenizeLine .start (Fault.eq_ok_of_toOption hline)) (Fault.eq_ok_of_toOption hstep)
  obtain ⟨hwell, hdepth⟩ := wellFormed_of_reachable hreach
  obtain ⟨⟨c, next, st'⟩, ht⟩ := (onlyOverflows_token {} (Cursor.ofLine ['\x7d'] 4) st).exists_eq_ok
    (Fault.ne_overflow_of_isOk (by decide +kernel))
  exact ⟨hreach, hwell, c, next, st', ht, hdepth _ _ _ _ _ ht⟩

end State
end EditorMode
