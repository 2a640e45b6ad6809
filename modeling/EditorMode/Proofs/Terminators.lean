import EditorMode.Proofs.Convergence
import EditorMode.Proofs.Partition

/-! # Terminators of lines

A text comes with its lines divided by line feeds, by carriage returns with line feeds, or by both,
and the last line with or without a terminator.  None of this reaches the mode.  The lines of a text
that is made of lines are these lines (`Text.lines_terminated_append`), so that a document has them
with their tokens and states whatever ends them, and texts that differ in their terminators only are
the same document (`Document.highlight_terminated`). -/

namespace EditorMode

/-! ## Terminated lines -/

namespace Text

/-- What ends a line. -/
inductive Terminator where
  | lineFeed
  | returnLineFeed
  deriving DecidableEq, Repr

/-- The characters of a terminator. -/
def Terminator.text : Terminator → Text
  | lineFeed => ['\n']
  | returnLineFeed => ['\r', '\n']

/-- The text of some lines, each with its own terminator. -/
def terminated (ended : List (Text × Terminator)) : Text :=
  ended.flatMap fun line => line.1 ++ line.2.text

/-- A text that can be a line: it ends no line itself. -/
def IsLine (t : Text) : Prop := '\n' ∉ t ∧ '\r' ∉ t

instance (t : Text) : Decidable (IsLine t) := inferInstanceAs (Decidable (_ ∧ _))

/-- A terminator ends the line before it. -/
theorem lines_append_terminator {t : Text} (h : IsLine t) (e : Terminator) (others : Text) :
    lines (t ++ (e.text ++ others)) = t :: lines others := by
  have hend : lines (e.text ++ others) = [] :: lines others := by
    cases e with
    | lineFeed => exact lines_lineFeed others
    | returnLineFeed => exact lines_returnLineFeed others
  rw [lines_append h.1 h.2 hend, List.append_nil]

/-- What no terminator ends is a line, unless it is empty. -/
theorem lines_of_isLine {t : Text} (h : IsLine t) (hne : t ≠ []) : lines t = [t] := by
  obtain ⟨others, c, rfl⟩ := (List.eq_nil_or_concat t).resolve_left hne
  obtain ⟨hfeed, hreturn⟩ := h
  rw [List.concat_eq_append] at hfeed hreturn ⊢
  rw [List.mem_append, not_or, List.mem_singleton] at hfeed hreturn
  have hlast : lines [c] = [[c]] := by
    rw [lines, lines_nil]
    · intro others hc
      exact absurd hc.symm hreturn.2
    · intro hc
      exact absurd hc.symm hfeed.2
  exact lines_append hfeed.1 hreturn.1 hlast

/-- **Terminated lines are the first lines of a text that begins with them.** -/
theorem lines_terminated_append {ended : List (Text × Terminator)}
    (h : ∀ line ∈ ended, IsLine line.1) (t : Text) :
    lines (terminated ended ++ t) = ended.map Prod.fst ++ lines t := by
  induction ended with
  | nil => rfl
  | cons line ended ih =>
    obtain ⟨hline, hended⟩ := List.forall_mem_cons.mp h
    have hcons : terminated (line :: ended) ++ t =
        line.1 ++ (line.2.text ++ (terminated ended ++ t)) := by
      simp only [terminated, List.flatMap_cons, List.append_assoc]
    rw [hcons, lines_append_terminator hline, ih hended]
    rfl

theorem lines_terminated {ended : List (Text × Terminator)}
    (h : ∀ line ∈ ended, IsLine line.1) : lines (terminated ended) = ended.map Prod.fst := by
  have hlines := lines_terminated_append h []
  rwa [List.append_nil, lines_nil, List.append_nil] at hlines

end Text

/-! ## Documents -/

namespace Document

/-- The document has these lines, in order, and each has been read from the state at the end of the
one before. -/
structure Reads (config : Config) (texts : List Text) (doc : Document) : Prop where
  map_text : doc.lines.map (·.text) = texts
  /-- The tokens cover their line. -/
  partition : ∀ line ∈ doc.lines, Token.Partition line.text line.tokens
  stateBefore?_zero : doc.stateBefore? 0 = some (.start 0)
  stateBefore?_succ : ∀ (k : Nat) (line : Line), doc.lines[k]? = some line →
    doc.stateBefore? (k + 1) = some line.state
  tokenizeLine : ∀ (k : Nat) (line : Line), doc.lines[k]? = some line →
    ∃ before, doc.stateBefore? k = some before ∧
      before.tokenizeLine config line.text = .ok (line.tokens, line.state)
  /-- There is a state before every line and one behind the last. -/
  isSome_stateBefore? : ∀ k, (doc.stateBefore? k).isSome ↔ k ≤ texts.length

variable {config : Config}

/-- **A document reads the lines of its text.** -/
theorem reads_of_highlight {text : Text} {doc : Document} (h : highlight config text = .ok doc) :
    doc.Reads config (Text.lines text) := by
  obtain ⟨lines, hlines, h⟩ := Fault.bind_eq_ok.mp h
  obtain rfl := Fault.pure_eq_ok.mp h
  have hlength : lines.length = (Text.lines text).length := length_readLines hlines
  have hread : ∀ (k : Nat) (line : Line), lines[k]? = some line →
      ∃ before, stateBefore? ⟨.start 0, lines⟩ k = some before ∧
        before.tokenizeLine config line.text = .ok (line.tokens, line.state) := by
    intro k line hline
    have hk : k < lines.length := (List.getElem?_eq_some_iff.mp hline).1
    obtain ⟨before, hbefore⟩ := Option.isSome_iff_exists.mp
      (Document.isSome_stateBefore?.mpr (Nat.le_of_lt hk) :
        (stateBefore? ⟨.start 0, lines⟩ k).isSome)
    exact ⟨before, hbefore, tokenizeLine_of_readLines hlines hbefore hline⟩
  refine ⟨map_text_readLines hlines, fun line hmem => ?_, rfl, fun k line hline => ?_, hread,
    fun k => ?_⟩
  · obtain ⟨k, hline⟩ := List.mem_iff_getElem?.mp hmem
    obtain ⟨before, -, htokens⟩ := hread k line hline
    exact State.partition_of_tokenizeLine htokens
  · rw [stateBefore?, hline, Option.map_some]
  · rw [Document.isSome_stateBefore?, hlength]

/-- What a text is highlighted as depends on its lines only. -/
theorem highlight_congr {text text' : Text} (h : Text.lines text = Text.lines text') :
    highlight config text = highlight config text' := by
  rw [highlight, highlight, h]

/-- **Terminators do not matter.**  The document of lines, each ended by a line feed or by a
carriage return and a line feed, has just these lines, read one from the state behind the other.
With other terminators the document is the same, or there is the same fault, and so it is without
the last terminator, if the last line is not empty. -/
theorem highlight_terminated (config : Config) (ended : List (Text × Text.Terminator))
    (hended : ∀ line ∈ ended, '\n' ∉ line.1 ∧ '\r' ∉ line.1) :
    (∀ doc, highlight config (Text.terminated ended) = .ok doc →
      doc.Reads config (ended.map Prod.fst)) ∧
    (∀ ended' : List (Text × Text.Terminator), ended'.map Prod.fst = ended.map Prod.fst →
      highlight config (Text.terminated ended') = highlight config (Text.terminated ended)) ∧
    ∀ first last terminator, ended = first ++ [(last, terminator)] → last ≠ [] →
      highlight config (Text.terminated first ++ last) =
        highlight config (Text.terminated ended) := by
  have hlines : Text.lines (Text.terminated ended) = ended.map Prod.fst :=
    Text.lines_terminated hended
  refine ⟨fun doc h => ?_, fun ended' hsame => ?_, ?_⟩
  · rw [← hlines]
    exact reads_of_highlight h
  · have hended' : ∀ line ∈ ended', Text.IsLine line.1 := by
      intro line hmem
      have hline : line.1 ∈ ended.map Prod.fst := hsame ▸ List.mem_map_of_mem hmem
      obtain ⟨other, hother, heq⟩ := List.mem_map.mp hline
      exact heq ▸ hended other hother
    apply highlight_congr
    rw [hlines, Text.lines_terminated hended', hsame]
  · rintro first last terminator rfl hne
    obtain ⟨hfirst, hlast⟩ := List.forall_mem_append.mp hended
    have hisLine : Text.IsLine last := hlast (last, terminator) List.mem_cons_self
    apply highlight_congr
    rw [hlines, Text.lines_terminated_append hfirst, Text.lines_of_isLine hisLine hne,
      List.map_append]
    rfl

/-- A string that is begun in a line before a carriage return and a line feed, and ended behind an
empty line. -/
theorem highlight_terminated_mixed :
    let ended : List (Text × Text.Terminator) :=
      [("f \"a".toList, .returnLineFeed), ([], .lineFeed), ("b\" c".toList, .lineFeed)]
    let text : Text := "f \"a\r\n\nb\" c".toList
    ∃ doc, highlight {} text = .ok doc ∧
      highlight {} (Text.terminated ended) = .ok doc ∧
      doc.Reads {} ["f \"a".toList, [], "b\" c".toList] := by
  intro ended text
  obtain ⟨hreads, -, hlast⟩ := highlight_terminated {} ended (by decide)
  obtain ⟨doc, hdoc⟩ := (onlyOverflows_highlight {} (Text.terminated ended)).exists_eq_ok
    (Fault.ne_overflow_of_isOk (by decide +kernel))
  refine ⟨doc, ?_, hdoc, hreads doc hdoc⟩
  rw [← hdoc]
  exact hlast (ended.take 2) "b\" c".toList .lineFeed rfl (by decide)

end Document
end EditorMode
