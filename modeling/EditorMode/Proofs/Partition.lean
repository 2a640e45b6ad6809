import EditorMode.Text.Search
import EditorMode.Proofs.Overflow
import EditorMode.Proofs.Run

/-! # The tokens of a line are its pieces

A host places tokens by byte offsets, so the offsets have to be boundaries of the line and the
tokens have to leave nothing out.  A token **lies in** a line if the line divides into a part before
it, its text and a part behind it, and its start is the byte length of the first; `LiesIn` gives the
boundaries, the slice and the bytes of the token.  Tokens **tile** the bytes between two offsets if
they are not empty and each begins where the one before it ends.

The main result, `tokens_partition_line`, says that the tokens of every line tile it and lie in it,
whatever is pending and whichever contexts are open, and that every single reading of a token before
the end of the line moves the cursor on. -/

namespace EditorMode
namespace Token

/-- The tokens cover the bytes from `start` to `stop`, side by side and none of them empty. -/
def Tile (start : Nat) : List Token → Nat → Prop
  | [], stop => start = stop
  | t :: tokens, stop => t.start = start ∧ t.start < t.stop ∧ Tile t.stop tokens stop

/-- The token is what stands in the line at its start. -/
def LiesIn (line : Text) (t : Token) : Prop :=
  ∃ before after, line = before ++ (t.text ++ after) ∧ t.start = Text.byteLength before

section LiesIn

variable {line : Text} {t : Token}

theorem LiesIn.isSome_cutAt?_start (h : t.LiesIn line) : (Text.cutAt? t.start line).isSome := by
  obtain ⟨before, after, hline, hstart⟩ := h
  rw [hline, hstart, Text.cutAt?_byteLength]
  rfl

theorem LiesIn.isSome_cutAt?_stop (h : t.LiesIn line) : (Text.cutAt? t.stop line).isSome := by
  obtain ⟨before, after, hline, hstart⟩ := h
  have hstop : t.stop = Text.byteLength (before ++ t.text) := by
    rw [stop, hstart, Text.byteLength_append]
  rw [hline, hstop, ← List.append_assoc, Text.cutAt?_byteLength]
  rfl

/-- Slicing the line between the ends of the token never fails, and gives its text. -/
theorem LiesIn.slice?_eq (h : t.LiesIn line) :
    Text.slice? t.start t.stop line = some t.text := by
  obtain ⟨before, after, hline, hstart⟩ := h
  rw [stop, hstart, hline]
  exact Text.slice?_append before t.text after

/-- The bytes of the line between the ends of the token are those of its text. -/
theorem LiesIn.extract_encode (h : t.LiesIn line) :
    (Text.encode line).extract t.start t.stop = Text.encode t.text := by
  obtain ⟨before, after, hline, hstart⟩ := h
  have hencode : Text.encode line =
      Text.encode before ++ (Text.encode t.text ++ Text.encode after) := by
    rw [hline]
    simp only [Text.encode, List.flatMap_append]
  rw [List.extract_eq_take_drop, stop, hstart, Nat.add_sub_cancel_left, hencode,
    ← Text.length_encode before, List.drop_left, ← Text.length_encode t.text, List.take_left]

end LiesIn

/-- The tokens divide the line, and a host can place each of them in it. -/
structure Partition (line : Text) (tokens : List Token) : Prop where
  /-- They stand side by side from the first byte of the line to its last. -/
  tile : Tile 0 tokens (Text.byteLength line)
  eq_nil_iff : tokens = [] ↔ line = []
  /-- Together they spell the line. -/
  flatMap_text : tokens.flatMap Token.text = line
  /-- They begin and end between two characters of the line, -/
  isSome_cutAt? : ∀ t ∈ tokens, (Text.cutAt? t.start line).isSome ∧ (Text.cutAt? t.stop line).isSome
  /-- so that slicing the line there never fails and gives their text, -/
  slice?_eq : ∀ t ∈ tokens, Text.slice? t.start t.stop line = some t.text
  /-- and the bytes there are those of their text. -/
  extract_encode : ∀ t ∈ tokens, (Text.encode line).extract t.start t.stop = Text.encode t.text

end Token

namespace State

/-- The tokens of a run tile what is left of the line, spell it, and lie in the line. -/
theorem ReadsRest.partition {config : Config} {s : Cursor} {st final : State}
    {tokens : List Token} (h : ReadsRest config s st tokens final) {before : Text}
    (hstands : s.StandsAfter before) :
    Token.Tile s.pos tokens (Text.byteLength s.line) ∧ tokens.flatMap Token.text = s.rest ∧
      ∀ t ∈ tokens, t.LiesIn s.line := by
  induction h generalizing before with
  | @done s st hnil =>
    refine ⟨?_, hnil.symm, by simp⟩
    show s.pos = Text.byteLength s.line
    rw [hstands.pos_eq, hstands.line_eq, hnil, List.append_nil]
  | @token s started next st st' final c tokens hne hs ht tail ih =>
    obtain ⟨hnext, hlexeme, hrest, hline, -⟩ := exists_piece_of_token hstands hne hs ht
    obtain ⟨htile, hspell, hlie⟩ := ih hnext
    rw [hline] at htile hlie
    have hstop : next.pos = Token.stop ⟨c, s.pos, next.lexeme⟩ := by
      rw [hnext.pos_eq, Text.byteLength_append, ← hstands.pos_eq]
      rfl
    have hlt : s.pos < Token.stop ⟨c, s.pos, next.lexeme⟩ := by
      have hlength : Text.byteLength next.lexeme ≠ 0 := fun h =>
        hlexeme (Text.byteLength_eq_zero.mp h)
      show s.pos < s.pos + Text.byteLength next.lexeme
      omega
    have hfirst : Token.LiesIn s.line ⟨c, s.pos, next.lexeme⟩ := by
      refine ⟨before ++ s.lexeme, next.rest, ?_, hstands.pos_eq⟩
      rw [hstands.line_eq, hrest, List.append_assoc]
    refine ⟨⟨rfl, hlt, hstop ▸ htile⟩, ?_, ?_⟩
    · rw [List.flatMap_cons, hspell, hrest]
    · intro t htoken
      rcases List.mem_cons.mp htoken with rfl | htoken
      · exact hfirst
      · exact hlie t htoken

theorem partition_of_tokenizeLine {config : Config} {line : Text} {st final : State}
    {tokens : List Token} (h : st.tokenizeLine config line = .ok (tokens, final)) :
    Token.Partition line tokens := by
  have key : Token.Tile 0 tokens (Text.byteLength line) ∧ tokens.flatMap Token.text = line ∧
      ∀ t ∈ tokens, t.LiesIn line := by
    by_cases hnil : line = []
    · subst hnil
      obtain ⟨rfl, -⟩ := tokens_eq_nil_of_tokenizeLine_nil h
      exact ⟨rfl, rfl, by simp⟩
    · rw [tokenizeLine_of_ne_nil hnil] at h
      exact (readsRest_of_tokenizeRest h).partition (Cursor.standsAfter_ofLine line config.tabSize)
  obtain ⟨htile, hspell, hlie⟩ := key
  refine ⟨htile, ⟨?_, ?_⟩, hspell, ?_, ?_, ?_⟩
  · rintro rfl
    exact hspell.symm
  · rintro rfl
    exact (tokens_eq_nil_of_tokenizeLine_nil h).1
  · exact fun t ht => ⟨(hlie t ht).isSome_cutAt?_start, (hlie t ht).isSome_cutAt?_stop⟩
  · exact fun t ht => (hlie t ht).slice?_eq
  · exact fun t ht => (hlie t ht).extract_encode

/-- **The tokens of a line partition it.**  Unless a column overflows, every line has tokens, and
they are a partition of it.  And every single token that is read at a cursor before the end of its
line moves the cursor on by at least one character. -/
theorem tokens_partition_line (config : Config) (st : State) :
    (∀ line, st.tokenizeLine config line ≠ .error .columnOverflow →
      ∃ tokens final, st.tokenizeLine config line = .ok (tokens, final) ∧
        Token.Partition line tokens) ∧
    (∀ s : Cursor, ¬ s.atLineEnd → st.token config s ≠ .error .columnOverflow →
      ∃ c next st', st.token config s = .ok (c, next, st') ∧ s.MovesOnTo next ∧
        s.pos < next.pos) := by
  constructor
  · intro line hover
    obtain ⟨⟨tokens, final⟩, hok⟩ :=
      (st.onlyOverflows_tokenizeLine config line).exists_eq_ok hover
    exact ⟨tokens, final, hok, partition_of_tokenizeLine hok⟩
  · intro s hend hover
    have hne : s.rest ≠ [] := by
      intro hnil
      exact hend (by rw [Cursor.atLineEnd, hnil]; rfl)
    obtain ⟨⟨c, next, st'⟩, hok⟩ := (st.onlyOverflows_token config s).exists_eq_ok hover
    have hmoves : s.MovesOnTo next := movesOnTo_of_token hne hok
    exact ⟨c, next, st', hok, hmoves, hmoves.pos_lt⟩

/-- A string whose two-byte quote closes it, a tab and a word with a three-byte character, read in
a state that no document reaches; and a cursor that has read a part of a token already. -/
theorem tokens_partition_resumed_line :
    let st : State := ⟨some (.string 'é'), .root ⟨.brace, 7, 3, .undecided⟩, 0, true⟩
    let line : Text := ['a', 'é', '\t', '→', 'x']
    let s : Cursor := ⟨['é', '*', '/'], 4, 0, 0, ['é'], ['*', '/']⟩
    (∃ tokens final, st.tokenizeLine {} line = .ok (tokens, final) ∧
      Token.Partition line tokens) ∧
    (∃ c next st', st.token {} s = .ok (c, next, st') ∧ s.MovesOnTo next ∧
      s.pos < next.pos) := by
  intro st line s
  obtain ⟨hlines, hcursors⟩ := tokens_partition_line {} st
  exact ⟨hlines line (Fault.ne_overflow_of_isOk (by decide +kernel)),
    hcursors s (by decide) (Fault.ne_overflow_of_isOk (by decide +kernel))⟩

end State
end EditorMode
