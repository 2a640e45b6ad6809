import EditorMode.Proofs.Effect

/-! # Contexts that stand further to the right

Columns and indents are only ever compared with the margin of the document.  A stack of contexts can
therefore be moved to the right as a whole (`ContextStack.shift`): every operation on contexts does
to the shifted stack what it does to the stack, and the columns that are suggested for new lines are
shifted with it.  Only the root stays where it is, since no line of the text has opened it, and so
do the lines that it places. -/

namespace EditorMode

/-! ## Shifted stacks -/

/-- The context, `k` columns further to the right. -/
def Context.shift (k : Nat) (c : Context) : Context :=
  { c with baseIndent := c.baseIndent + k, column := c.column + k }

namespace ContextStack

/-- The stack with all its contexts but the root `k` columns further to the right. -/
def shift (k : Nat) : ContextStack → ContextStack
  | root c => root c
  | push c below => push (c.shift k) (shift k below)

variable {baseColumn k : Nat} {s : ContextStack} {first : Option Char}

theorem kind_top_shift (k : Nat) (s : ContextStack) : (s.shift k).top.kind = s.top.kind := by
  cases s <;> rfl

/-- An alignment is decided at any margin. -/
theorem shift_decideAlignment (k : Nat) (a : Context.Alignment) (s : ContextStack) :
    (s.shift k).decideAlignment a = (s.decideAlignment a).shift k := by
  cases s with
  | root c =>
    rw [decideAlignment, decideAlignment]
    show (if c.alignment = .undecided then _ else _) =
      (if c.alignment = .undecided then _ else _ : ContextStack).shift k
    split
    · rfl
    · rfl
  | push c below =>
    rw [shift, decideAlignment_push, decideAlignment_push]
    rfl

theorem shift_dropStatements (k : Nat) (s : ContextStack) :
    (s.shift k).dropStatements = (s.dropStatements).shift k := by
  induction s with
  | root c => rfl
  | push c below ih =>
    show (if c.kind = .statement then _ else _) =
      (if c.kind = .statement then _ else _ : ContextStack).shift k
    split
    · exact ih
    · rfl

/-- A statement on top is not the root, so it is shifted. -/
theorem baseIndent_top_shift (h : Nested baseColumn s) (hstatement : s.top.kind = .statement) :
    (s.shift k).top.baseIndent = s.top.baseIndent + k := by
  cases h with
  | root => cases hstatement
  | push h hc => rfl

end ContextStack

/-! ## Shifted states -/

namespace State

/-- The contexts and the current indentation of the second state are those of the first one, `k`
columns further to the right. -/
structure Shifted (k : Nat) (st st' : State) : Prop where
  stack : st'.stack = st.stack.shift k
  indented : st'.indented = st.indented + k

namespace Shifted

variable {baseColumn k column : Nat} {st st' : State}

theorem decideAlignment (h : Shifted k st st') (a : Context.Alignment) :
    Shifted k (st.decideAlignment a) (st'.decideAlignment a) where
  stack := by
    show st'.stack.decideAlignment a = (st.stack.decideAlignment a).shift k
    rw [h.stack, ContextStack.shift_decideAlignment]
  indented := h.indented

theorem dropStatements (h : Shifted k st st') : Shifted k st.dropStatements st'.dropStatements where
  stack := by
    show st'.stack.dropStatements = st.stack.dropStatements.shift k
    rw [h.stack, ContextStack.shift_dropStatements]
  indented := h.indented

/-- Closing a bracket restores a base indent, which is shifted too. -/
theorem pop (h : Shifted k st st') : Shifted k st.pop st'.pop := by
  cases hs : st.stack with
  | root c =>
    have hpop : st.pop = st := by
      rw [State.pop, pop?, hs]
      rfl
    have hpop' : st'.pop = st' := by
      rw [State.pop, pop?, h.stack, hs]
      rfl
    rw [hpop, hpop']
    exact h
  | push c below =>
    have hs' : st'.stack = (below.shift k).push (c.shift k) := by
      rw [h.stack, hs]
      rfl
    rw [pop_of_push hs, pop_of_push hs']
    refine ⟨rfl, ?_⟩
    show (if c.kind.isBracket then c.baseIndent + k else st'.indented) =
      (if c.kind.isBracket then c.baseIndent else st.indented) + k
    rw [h.indented]
    split
    · rfl
    · rfl

theorem popKind (h : Shifted k st st') (kind : Context.Kind) :
    Shifted k (st.popKind kind) (st'.popKind kind) := by
  rw [State.popKind, State.popKind, h.stack, ContextStack.kind_top_shift]
  split
  · exact h.pop
  · exact h

/-- A context is opened at the column where its token stands. -/
theorem push (h : Shifted k st st') (hnested : Nested baseColumn st.stack) (kind : Context.Kind) :
    Shifted k (st.push column kind) (st'.push (column + k) kind) where
  stack := by
    show st'.stack.push _ = (st.stack.push _).shift k
    rw [ContextStack.shift, h.stack, h.indented, ContextStack.kind_top_shift, Context.shift]
    by_cases hstatement : st.stack.top.kind = .statement
    · rw [if_pos hstatement, if_pos hstatement,
        ContextStack.baseIndent_top_shift hnested hstatement]
    · rw [if_neg hstatement, if_neg hstatement]
  indented := h.indented

end Shifted

theorem follow_closingBrace (column : Nat) (st : State) :
    st.follow column (some '}') =
      ((st.decideAlignment .aligned).dropStatements.popKind .brace).dropStatements := rfl

/-- What a mark other than a closing brace does. -/
theorem follow_some_of_ne {column : Nat} {c : Char} (hc : c ≠ '}') (st : State) :
    st.follow column (some c) =
      if c = ';' ∨ c = ',' ∨ c = ':' ∨ c = '.' then
        (st.decideAlignment .aligned).popKind .statement
      else
        match Context.Kind.ofOpener? c with
        | some kind => (st.decideAlignment .aligned).push column kind
        | none =>
          if (st.decideAlignment .aligned).stack.top.kind.closer? = some c then
            (st.decideAlignment .aligned).pop
          else st.decideAlignment .aligned := by
  unfold follow
  split
  · rename_i heq
    cases heq
  · rename_i heq
    exact absurd (Option.some.inj heq) hc
  · rename_i heq
    obtain rfl := Option.some.inj heq
    rfl

/-- Where no statement begins and no alignment is to be decided, a token that is not punctuation
does nothing. -/
theorem follow_none_eq_self {column : Nat} {st : State}
    (hdecided : st.stack.top.alignment ≠ .undecided) (htop : st.stack.top.kind ≠ .top)
    (hbrace : st.stack.top.kind ≠ .brace) : st.follow column none = st := by
  have hself : st.decideAlignment .aligned = st := by
    rw [State.decideAlignment, ContextStack.decideAlignment_of_decided .aligned hdecided]
  unfold follow
  dsimp only
  rw [hself]
  split
  · rename_i heq
    exact absurd heq htop
  · rename_i heq
    exact absurd heq hbrace
  · rfl

namespace Shifted

variable {baseColumn k column : Nat} {st st' : State}

/-- **A significant token does the same to shifted contexts**, if it stands further to the right. -/
theorem follow (h : Shifted k st st') (hnested : Nested baseColumn st.stack) (mark : Option Char) :
    Shifted k (st.follow column mark) (st'.follow (column + k) mark) := by
  have hdecided := h.decideAlignment .aligned
  have hnested' : Nested baseColumn (st.decideAlignment .aligned).stack :=
    hnested.decideAlignment .aligned
  have hkind : (st'.decideAlignment .aligned).stack.top.kind =
      (st.decideAlignment .aligned).stack.top.kind := by
    rw [hdecided.stack, ContextStack.kind_top_shift]
  cases mark with
  | none =>
    unfold State.follow
    dsimp only
    rw [hkind]
    split
    · exact hdecided.push hnested' .statement
    · exact hdecided.push hnested' .statement
    · exact hdecided
  | some c =>
    by_cases hc : c = '}'
    · subst hc
      exact (hdecided.dropStatements.popKind .brace).dropStatements
    · rw [follow_some_of_ne hc, follow_some_of_ne hc, hkind]
      split
      · exact hdecided.popKind .statement
      · split
        · exact hdecided.push hnested' _
        · split
          · exact hdecided.pop
          · exact hdecided

/-- So does what has been read there. -/
theorem afterReading (h : Shifted k st st') (hnested : Nested baseColumn st.stack) (c : Category)
    (mark : Option Char) (after : Option Construct) (next next' : Cursor) :
    Shifted k (st.afterReading column ⟨c, mark, after, next⟩)
      (st'.afterReading (column + k) ⟨c, mark, after, next'⟩) := by
  have hread : Shifted k { st with pending := after } { st' with pending := after } :=
    ⟨h.stack, h.indented⟩
  have hfollow : Shifted k (({ st with pending := after } : State).follow column mark)
      (({ st' with pending := after } : State).follow (column + k) mark) :=
    hread.follow hnested mark
  rw [State.afterReading, State.afterReading]
  dsimp only
  split
  · exact ⟨hfollow.stack, hfollow.indented⟩
  · exact hread

end Shifted
end State

/-! ## Suggested columns -/

/-- **The root decides** where a line beginning with `first` goes: it is the only context, or it is
what a closing brace finds under the statement on top. -/
def ContextStack.RootDecides (first : Option Char) (s : ContextStack) : Prop :=
  s.depth = 1 ∨ (first = some '}' ∧ s.top.kind = .statement ∧ s.depth = 2)

instance (first : Option Char) (s : ContextStack) : Decidable (s.RootDecides first) :=
  inferInstanceAs (Decidable (_ ∨ _))

namespace ContextStack

variable {baseColumn k : Nat} {s : ContextStack} {first : Option Char}

theorem depth_eq_one_iff : s.depth = 1 ↔ ∃ c, s = .root c := by
  cases s with
  | root c => exact ⟨fun _ => ⟨c, rfl⟩, fun _ => rfl⟩
  | push c below =>
    have hpos := below.depth_pos
    constructor
    · intro h
      rw [depth] at h
      omega
    · rintro ⟨c, hc⟩
      cases hc

/-- Where the root decides, it is the document. -/
theorem RootDecides.deciding_eq (h : s.RootDecides first) (hnested : Nested baseColumn s)
    (k : Nat) :
    s.deciding first = .root baseColumn ∧ (s.shift k).deciding first = .root baseColumn := by
  rcases h with hdepth | ⟨rfl, hstatement, hdepth⟩
  · obtain ⟨c, rfl⟩ := depth_eq_one_iff.mp hdepth
    cases hnested
    exact ⟨rfl, rfl⟩
  · cases hnested with
    | root => cases hstatement
    | @push c below hbelow hc =>
      obtain ⟨d, rfl⟩ := depth_eq_one_iff.mp (Nat.succ.inj hdepth)
      cases hbelow
      have hkind : c.kind = .statement := hstatement
      have hkind' : (c.shift k).kind = .statement := hstatement
      exact ⟨deciding_closingBrace hkind, deciding_closingBrace hkind'⟩

/-- Where it does not, a shifted context decides, which is not the document. -/
theorem deciding_shift (h : ¬ s.RootDecides first) (hnested : Nested baseColumn s) (k : Nat) :
    (s.shift k).deciding first = (s.deciding first).shift k ∧ (s.deciding first).kind ≠ .top := by
  cases hnested with
  | root => exact absurd (.inl rfl) h
  | @push c below hbelow hc =>
    by_cases hpast : c.kind = .statement ∧ first = some '}'
    · obtain ⟨hstatement, rfl⟩ := hpast
      have hstatement' : (c.shift k).kind = .statement := hstatement
      rw [shift, deciding_closingBrace hstatement, deciding_closingBrace hstatement']
      cases hbelow with
      | root => exact absurd (.inr ⟨rfl, hstatement, rfl⟩) h
      | push hbelow hd => exact ⟨rfl, hd.kind_ne_top⟩
    · have hpast' : ¬ ((c.shift k).kind = .statement ∧ first = some '}') := hpast
      have htop : ((below.push c).shift k).deciding first = c.shift k := deciding_eq_top hpast'
      have htop' : (below.push c).deciding first = c := deciding_eq_top hpast
      rw [htop, htop']
      exact ⟨rfl, hc.kind_ne_top⟩

end ContextStack

/-- Where a bracket places a line. -/
theorem Context.innerColumn_of_isBracket {config : Config} {first : Option Char}
    {kind : Context.Kind} (h : kind.isBracket) (baseIndent column : Nat)
    (alignment : Context.Alignment) :
    innerColumn config first ⟨kind, baseIndent, column, alignment⟩ =
      if alignment = .aligned then
        if first = kind.closer? then .ok column else Column.add column 1
      else if first = kind.closer? then .ok baseIndent
      else Column.add baseIndent
        (if kind = .paren then config.continuationUnit else config.indentUnit) := by
  cases kind with
  | top | statement => cases h
  | paren | bracket | brace => rfl

/-- What a context other than the document decides is shifted with the context. -/
theorem Context.innerColumn_shift {config : Config} {first : Option Char} {c : Context}
    {k n n' : Nat} (hkind : c.kind ≠ .top) (h : c.innerColumn config first = .ok n)
    (h' : (c.shift k).innerColumn config first = .ok n') : n' = n + k := by
  -- the line stands at the context's base indent or column, or a width further to the right
  have hstay {m : Nat} (hm : (.ok m : Except Fault Nat) = .ok n)
      (hm' : (.ok (m + k) : Except Fault Nat) = .ok n') : n' = n + k := by
    rw [← Except.ok.inj hm, ← Except.ok.inj hm']
  have hadd {m width : Nat} (hm : Column.add m width = .ok n)
      (hm' : Column.add (m + k) width = .ok n') : n' = n + k := by
    rw [(Column.add_eq_ok.mp hm).1, (Column.add_eq_ok.mp hm').1]
    omega
  obtain ⟨kind, baseIndent, column, alignment⟩ := c
  rw [Context.shift] at h'
  by_cases hbracket : kind.isBracket
  · rw [innerColumn_of_isBracket hbracket] at h h'
    by_cases haligned : alignment = .aligned
    · by_cases hcloses : first = kind.closer?
      · rw [if_pos haligned, if_pos hcloses] at h h'
        exact hstay h h'
      · rw [if_pos haligned, if_neg hcloses] at h h'
        exact hadd h h'
    · by_cases hcloses : first = kind.closer?
      · rw [if_neg haligned, if_pos hcloses] at h h'
        exact hstay h h'
      · rw [if_neg haligned, if_neg hcloses] at h h'
        exact hadd h h'
  · cases kind with
    | top => exact absurd rfl hkind
    | paren | bracket | brace => exact absurd rfl hbracket
    | statement =>
      unfold innerColumn at h h'
      by_cases hopening : first = some '{'
      · rw [if_pos hopening] at h h'
        exact hstay h h'
      · rw [if_neg hopening] at h h'
        exact hadd h h'

namespace State

variable {config : Config} {baseColumn k : Nat} {st st' : State}

/-- **Suggestions are shifted with the contexts**, except where the root decides. -/
theorem Shifted.indent_eq (h : Shifted k st st') (hpending : st'.pending = st.pending)
    (hnested : Nested baseColumn st.stack) {textAfter : Text} {suggested suggested' : Option Nat}
    (hs : st.indent config textAfter = .ok suggested)
    (hs' : st'.indent config textAfter = .ok suggested') :
    suggested' = suggested.map fun n =>
      if config.indentStyle = .contextual ∧
          st.stack.RootDecides (Text.firstVisible? textAfter) then n
      else n + k := by
  cases hpend : st.pending with
  | some construct =>
    rw [indent, hpend] at hs
    rw [indent, hpending, hpend] at hs'
    obtain rfl := Except.ok.inj hs
    obtain rfl := Except.ok.inj hs'
    rfl
  | none =>
    have hpend' : st'.pending = none := hpending.trans hpend
    cases hstyle : config.indentStyle with
    | preserve =>
      rw [indent, hpend, hstyle] at hs
      rw [indent, hpend', hstyle] at hs'
      obtain rfl := Except.ok.inj hs
      obtain rfl := Except.ok.inj hs'
      rw [h.indented, Option.map_some, if_neg (fun hboth => nomatch hboth.1)]
    | contextual =>
      rw [indent, hpend, hstyle] at hs
      rw [indent, hpend', hstyle] at hs'
      obtain ⟨n, hn, rfl⟩ := Fault.map_eq_ok.mp hs
      obtain ⟨n', hn', rfl⟩ := Fault.map_eq_ok.mp hs'
      rw [h.stack] at hn'
      by_cases hroot : st.stack.RootDecides (Text.firstVisible? textAfter)
      · obtain ⟨hdeciding, hdeciding'⟩ := hroot.deciding_eq hnested k
        rw [hdeciding] at hn
        rw [hdeciding'] at hn'
        obtain rfl := Except.ok.inj (hn.symm.trans hn')
        rw [Option.map_some, if_pos ⟨rfl, hroot⟩]
      · obtain ⟨hdeciding, hkind⟩ := ContextStack.deciding_shift hroot hnested k
        rw [hdeciding] at hn'
        rw [Option.map_some, if_neg (fun hboth => hroot hboth.2),
          Context.innerColumn_shift hkind hn hn']

end State
end EditorMode
