import EditorMode.Document

/-! # Overflow is the only fault

A host that names no byte offsets can meet one fault only: a column past the largest one.  A
computation **only overflows** if every fault it can end in is that one; the computations that only
overflow are closed under sequencing, and reading a line is one of them.  A line that does not
overflow therefore has its tokens and a state behind it. -/

namespace EditorMode
namespace Fault

variable {α β : Type}

/-- Every fault of the computation is an overflow. -/
def OnlyOverflows (x : Except Fault α) : Prop := ∀ fault, x = .error fault → fault = .columnOverflow

theorem onlyOverflows_ok (a : α) : OnlyOverflows (.ok a) := by
  intro fault h
  cases h

theorem OnlyOverflows.bind {x : Except Fault α} {f : α → Except Fault β} (hx : OnlyOverflows x)
    (hf : ∀ a, OnlyOverflows (f a)) : OnlyOverflows (x >>= f) := by
  intro fault h
  cases x with
  | error e => exact hx fault (congrArg Except.error (Except.error.inj h))
  | ok a => exact hf a fault h

/-- What only overflows and does not overflow has a result. -/
theorem OnlyOverflows.exists_eq_ok {x : Except Fault α} (hx : OnlyOverflows x)
    (h : x ≠ .error .columnOverflow) : ∃ a, x = .ok a := by
  cases x with
  | error e => exact absurd (congrArg Except.error (hx e rfl)) h
  | ok a => exact ⟨a, rfl⟩

/-- Of two computations with the same outcome, one has a result if the other has. -/
theorem exists_eq_ok_of_map_eq {γ : Type} {x : Except Fault α} {y : Except Fault β} {f : α → γ}
    {g : β → γ} (h : f <$> x = g <$> y) {a : α} (hx : x = .ok a) : ∃ b, y = .ok b ∧ f a = g b := by
  subst hx
  cases y with
  | error fault => cases h
  | ok b => exact ⟨b, rfl, Except.ok.inj h⟩

/-- A result that has been computed is the result. -/
theorem eq_ok_of_toOption {x : Except Fault α} {a : α} (h : x.toOption = some a) : x = .ok a := by
  cases x with
  | error fault => cases h
  | ok b => exact congrArg Except.ok (Option.some.inj h)

/-- So is one of which a property has been computed. -/
theorem exists_eq_ok_of_any {x : Except Fault α} {p : α → Prop} [DecidablePred p]
    (h : x.toOption.any fun a => decide (p a)) : ∃ a, x = .ok a ∧ p a := by
  cases x with
  | error fault => cases h
  | ok a => exact ⟨a, rfl, of_decide_eq_true h⟩

/-- What has a result does not overflow. -/
theorem ne_overflow_of_isOk {x : Except Fault α} (h : x.isOk) : x ≠ .error .columnOverflow := by
  rintro rfl
  cases h

end Fault

open Fault

/-! ## Columns -/

theorem Column.onlyOverflows_after (tabSize column : Nat) (c : Char) :
    OnlyOverflows (Column.after tabSize column c) := by
  intro fault h
  unfold Column.after Column.add at h
  split at h
  · cases h
  · exact (Except.error.inj h).symm

theorem Column.onlyOverflows_advance (tabSize column : Nat) (t : Text) :
    OnlyOverflows (Column.advance tabSize column t) := by
  induction t generalizing column with
  | nil => exact onlyOverflows_ok column
  | cons c t ih =>
    rw [Column.advance_cons]
    exact (Column.onlyOverflows_after tabSize column c).bind ih

namespace Cursor

theorem onlyOverflows_indentation (s : Cursor) : OnlyOverflows s.indentation :=
  Column.onlyOverflows_advance _ _ _

theorem onlyOverflows_startToken (s : Cursor) : OnlyOverflows s.startToken :=
  (Column.onlyOverflows_advance _ _ _).bind fun _ => onlyOverflows_ok _

/-- At a boundary of the line, opening a cursor only overflows. -/
theorem onlyOverflows_ofOffset {line : Text} {offset : Nat}
    (h : (Text.cutAt? (min offset (Text.byteLength line)) line).isSome) (tabSize : Nat) :
    OnlyOverflows (ofOffset line offset tabSize) := by
  obtain ⟨⟨before, rest⟩, hcut⟩ := Option.isSome_iff_exists.mp h
  rw [ofOffset]
  dsimp only
  rw [hcut]
  exact (Column.onlyOverflows_advance _ _ _).bind fun _ => onlyOverflows_ok _

end Cursor

/-! ## Tokens -/

namespace State

theorem onlyOverflows_enterLine (s : Cursor) (st : State) : OnlyOverflows (st.enterLine s) := by
  rw [enterLine]
  split
  · exact s.onlyOverflows_indentation.bind fun _ => onlyOverflows_ok _
  · exact onlyOverflows_ok _

/-- Reading one token only overflows. -/
theorem onlyOverflows_token (config : Config) (s : Cursor) (st : State) :
    OnlyOverflows (st.token config s) := by
  rw [token]
  refine (st.onlyOverflows_enterLine s).bind fun entered => ?_
  split
  · exact s.onlyOverflows_indentation.bind fun _ => onlyOverflows_ok _
  · exact onlyOverflows_ok _

theorem onlyOverflows_tokenizeRest (config : Config) (s : Cursor) (st : State) :
    OnlyOverflows (st.tokenizeRest config s) := by
  fun_induction tokenizeRest config s st with
  | case1 s st hnil => exact onlyOverflows_ok _
  | case2 s st hne fault hs =>
    intro e he
    obtain rfl := Except.error.inj he
    exact s.onlyOverflows_startToken _ hs
  | case3 s st hne started hs fault ht =>
    intro e he
    obtain rfl := Except.error.inj he
    exact st.onlyOverflows_token config started _ ht
  | case4 s st hne started hs c next st' ht fault hrest ih =>
    intro e he
    exact ih e (hrest.trans he)
  | case5 s st hne started hs c next st' ht tokens final hrest ih => exact onlyOverflows_ok _

/-- **Reading a line only overflows.** -/
theorem onlyOverflows_tokenizeLine (config : Config) (line : Text) (st : State) :
    OnlyOverflows (st.tokenizeLine config line) := by
  rw [tokenizeLine]
  split
  · exact (st.onlyOverflows_token config _).bind fun _ => onlyOverflows_ok _
  · exact st.onlyOverflows_tokenizeRest config _

end State

theorem Document.onlyOverflows_readLines (config : Config) (st : State) (texts : List Text) :
    OnlyOverflows (Document.readLines config st texts) := by
  induction texts generalizing st with
  | nil => exact onlyOverflows_ok _
  | cons text texts ih =>
    refine (st.onlyOverflows_tokenizeLine config text).bind fun result => ?_
    exact (ih result.2).bind fun _ => onlyOverflows_ok _

end EditorMode
