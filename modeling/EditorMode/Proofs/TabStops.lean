import EditorMode.Proofs.Bounds
import EditorMode.Proofs.LeadingBlanks
import EditorMode.Proofs.Margin
import Mathlib.Data.List.Induction

/-! # Columns as lengths

A tab is as wide as the spaces that reach the next tab stop, so that the column behind a text is the
length of the text with spaces in place of its tabs (`expanded`).  How many spaces stand for a tab
depends on all that has been put in place before, from the left; what stands behind it does not
depend on whether the tab or its spaces are read (`Replaces.advance_eq`).

Counting goes on from the column that it has reached, and begins anew at every tab stop.  Within the
bound of `exists_advance_eq_ok` no column overflows, and the main result,
`count_eq_length_expanded`, has all of this for the texts within it. -/

namespace EditorMode.Column

/-! ## Spaces for tabs -/

/-- Number of spaces between a length and the next multiple of the tab size. -/
def gap (tabSize length : Nat) : Nat := tabSize * (length / tabSize + 1) - length

/-- The fewest spaces, but at least one, that lead from a length to a multiple of the tab size. -/
structure IsGap (tabSize length n : Nat) : Prop where
  pos : 0 < n
  dvd : tabSize ∣ length + n
  least : ∀ m, 0 < m → m < n → ¬ tabSize ∣ length + m

/-- What stands for a character behind `length` others: spaces for a tab, and otherwise itself. -/
def standIn (tabSize length : Nat) (c : Char) : Text :=
  if c = '\t' then List.replicate (gap tabSize length) ' ' else [c]

/-- A text with spaces in place of its tabs, from left to right. -/
def expanded (tabSize : Nat) (t : Text) : Text :=
  t.foldl (fun done c => done ++ standIn tabSize done.length c) []

/-- The second text is the first one with spaces in place of some of its tabs, each time as many as
are needed if those before are all replaced. -/
inductive Replaces (tabSize : Nat) : Text → Text → Prop where
  | nil : Replaces tabSize [] []
  | keep {t t' : Text} (c : Char) (h : Replaces tabSize t t') :
      Replaces tabSize (t ++ [c]) (t' ++ [c])
  | tab {t t' : Text} (h : Replaces tabSize t t') :
      Replaces tabSize (t ++ ['\t'])
        (t' ++ List.replicate (gap tabSize (expanded tabSize t).length) ' ')

variable {tabSize column n : Nat} {t t' text : Text} {c : Char}

/-- **The gap is the way to the next multiple.**  The length lies between two consecutive multiples,
and no third one lies between these. -/
theorem isGap_gap (htab : 0 < tabSize) (length : Nat) :
    IsGap tabSize length (gap tabSize length) := by
  have hupper : length < tabSize * (length / tabSize + 1) := Nat.lt_mul_div_succ length htab
  have hreach : length + gap tabSize length = tabSize * (length / tabSize + 1) := by
    rw [gap]
    omega
  refine ⟨?_, ?_, ?_⟩
  · omega
  · rw [hreach]
    exact Nat.dvd_mul_right _ _
  · rintro m hpos hlt ⟨k, hk⟩
    have hlower : tabSize * (length / tabSize) ≤ length := Nat.mul_div_le length tabSize
    have habove : length / tabSize < k := Nat.lt_of_mul_lt_mul_left (a := tabSize) (by omega)
    have hbelow : k < length / tabSize + 1 := Nat.lt_of_mul_lt_mul_left (a := tabSize) (by omega)
    omega

/-- A tab is as wide as the spaces that stand for it. -/
theorem width_tab (tabSize column : Nat) : width tabSize column '\t' = gap tabSize column := by
  have hdivide : tabSize * (column / tabSize) + column % tabSize = column :=
    Nat.div_add_mod column tabSize
  rw [width, if_pos rfl, gap, Nat.mul_succ]
  omega

theorem width_of_ne (tabSize column : Nat) (hc : c ≠ '\t') : width tabSize column c = 1 := if_neg hc

theorem length_standIn (tabSize column : Nat) (c : Char) :
    (standIn tabSize column c).length = width tabSize column c := by
  rw [standIn]
  split
  · rename_i hc
    rw [hc, width_tab, List.length_replicate]
  · rename_i hc
    rw [width_of_ne tabSize column hc, List.length_singleton]

theorem expanded_concat (tabSize : Nat) (t : Text) (c : Char) :
    expanded tabSize (t ++ [c]) =
      expanded tabSize t ++ standIn tabSize (expanded tabSize t).length c := by
  simp only [expanded, List.foldl_append, List.foldl_cons, List.foldl_nil]

example : expanded 4 "a\tbc\t\td".toList = "a   bc      d".toList := by decide

/-! ## Counting -/

/-- Reading one more character goes on from the column of those before. -/
theorem advance_concat_eq_ok_iff : advance tabSize column (t ++ [c]) = .ok n ↔
    ∃ m, advance tabSize column t = .ok m ∧ n = m + width tabSize m c ∧ n ≤ largest := by
  rw [advance_append]
  constructor
  · intro h
    obtain ⟨m, hm, h⟩ := Fault.bind_eq_ok.mp h
    rw [advance_cons] at h
    obtain ⟨next, hnext, h⟩ := Fault.bind_eq_ok.mp h
    obtain rfl := Except.ok.inj h
    obtain ⟨rfl, hle⟩ := add_eq_ok.mp hnext
    exact ⟨m, hm, rfl, hle⟩
  · rintro ⟨m, hm, rfl, hle⟩
    refine Fault.bind_eq_ok.mpr ⟨m, hm, ?_⟩
    rw [advance_cons]
    exact Fault.bind_eq_ok.mpr ⟨_, add_of_le hle, rfl⟩

/-- Reading spaces goes on by their number. -/
theorem advance_spaces {k : Nat} (h : column + k ≤ largest) :
    advance tabSize column (List.replicate k ' ') = .ok (column + k) := by
  induction k generalizing column with
  | zero => rfl
  | succ k ih =>
    have hspace : after tabSize column ' ' = .ok (column + 1) := by
      rw [after, width_of_ne tabSize column (by decide)]
      exact add_of_le (by omega)
    rw [List.replicate_succ, advance_cons, hspace]
    show advance tabSize (column + 1) (List.replicate k ' ') = .ok (column + (k + 1))
    rw [ih (by omega), Nat.add_right_comm, Nat.add_assoc]

/-- **The column is the length with spaces in place of tabs**, by induction on the text from the
left. -/
theorem eq_length_expanded (h : advance tabSize 0 t = .ok n) : n = (expanded tabSize t).length := by
  induction t using List.reverseRecOn generalizing n with
  | nil => exact (Except.ok.inj h).symm
  | append_singleton t c ih =>
    obtain ⟨m, hm, rfl, -⟩ := advance_concat_eq_ok_iff.mp h
    rw [expanded_concat, List.length_append, length_standIn, ← ih hm]

/-- **Reading a tab or its spaces reaches the same column.** -/
theorem Replaces.advance_eq (hreplaces : Replaces tabSize t t') (h : advance tabSize 0 t = .ok n) :
    advance tabSize 0 t' = .ok n := by
  induction hreplaces generalizing n with
  | nil => exact h
  | keep c _ ih =>
    obtain ⟨m, hm, hn⟩ := advance_concat_eq_ok_iff.mp h
    exact advance_concat_eq_ok_iff.mpr ⟨m, ih hm, hn⟩
  | tab _ ih =>
    obtain ⟨m, hm, rfl, hle⟩ := advance_concat_eq_ok_iff.mp h
    rw [width_tab] at hle ⊢
    rw [advance_append, ih hm, ← eq_length_expanded hm]
    exact advance_spaces hle

/-- A text with spaces in place of all its tabs is one with spaces in place of some. -/
theorem replaces_expanded (tabSize : Nat) (t : Text) : Replaces tabSize t (expanded tabSize t) := by
  induction t using List.reverseRecOn with
  | nil => exact .nil
  | append_singleton t c ih =>
    rw [expanded_concat, standIn]
    split
    · rename_i hc
      rw [hc]
      exact ih.tab
    · exact ih.keep c

theorem count_eq_advance (htab : 1 ≤ tabSize) (t : Text) :
    count t tabSize = advance tabSize 0 t := by
  rw [count, Column.tabSize, Nat.max_eq_left htab]

/-- **Columns count characters, with spaces in place of tabs.**  Let the tab size be at least one,
and let the tab size times the number of characters of a text be in range.

* A tab stands for the fewest spaces, but at least one, that lead to a multiple of the tab size.
  Counting the text gives the number of characters that it has with spaces in place of its tabs.
* This is not less than the number of characters that it has as it is, nor more than the tab size
  times this number.
* Spaces in place of any tabs change the column of no character behind them.
* Every character is at a smaller column than what follows it, by one if it is not a tab.
* Counting goes on from the column that it has reached, and if this is a multiple of the tab size,
  it adds what counting the others anew gives. -/
theorem count_eq_length_expanded (htab : 1 ≤ tabSize) (h : tabSize * text.length ≤ largest) :
    (∀ length, IsGap tabSize length (gap tabSize length)) ∧
    count text tabSize = .ok (expanded tabSize text).length ∧
    Replaces tabSize text (expanded tabSize text) ∧
    text.length ≤ (expanded tabSize text).length ∧
    (expanded tabSize text).length ≤ tabSize * text.length ∧
    (∀ a a' b, a ++ b <+: text → Replaces tabSize a a' →
      count (a' ++ b) tabSize = count (a ++ b) tabSize) ∧
    (∀ a c, a ++ [c] <+: text → ∃ m n, count a tabSize = .ok m ∧ count (a ++ [c]) tabSize = .ok n ∧
      m < n ∧ (c ≠ '\t' → n = m + 1)) ∧
    (∀ a b, a ++ b = text → ∃ m n, count a tabSize = .ok m ∧ count (a ++ b) tabSize = .ok n ∧
      advance tabSize m b = .ok n ∧
      (tabSize ∣ m → ∃ k, count b tabSize = .ok k ∧ n = m + k)) := by
  simp only [count_eq_advance htab]
  -- every part of the text can be counted
  have hcount : ∀ t : Text, t.length ≤ text.length →
      ∃ n, advance tabSize 0 t = .ok n ∧ n ≤ tabSize * text.length :=
    fun t ht => exists_advance_of_length_le htab ht h
  refine ⟨isGap_gap htab, ?_, replaces_expanded tabSize text, ?_, ?_,
    fun a a' b hprefix hreplaces => ?_, fun a c hprefix => ?_, fun a b hab => ?_⟩
  · obtain ⟨n, hn, -⟩ := hcount text (Nat.le_refl _)
    rw [hn, eq_length_expanded hn]
  · obtain ⟨n, hn, -⟩ := hcount text (Nat.le_refl _)
    have hlower := length_le_of_advance htab hn
    rw [← eq_length_expanded hn]
    omega
  · obtain ⟨n, hn, hupper⟩ := hcount text (Nat.le_refl _)
    rwa [← eq_length_expanded hn]
  · obtain ⟨m, hm, -⟩ := hcount a ((List.prefix_append a b).trans hprefix).length_le
    rw [advance_append, advance_append, hreplaces.advance_eq hm, hm]
  · obtain ⟨n, hn, -⟩ := hcount (a ++ [c]) hprefix.length_le
    obtain ⟨m, hm, rfl, hle⟩ := advance_concat_eq_ok_iff.mp hn
    refine ⟨m, _, hm, hn, Nat.lt_add_of_pos_right (width_pos c htab), fun hc => ?_⟩
    rw [width_of_ne tabSize m hc]
  · subst hab
    obtain ⟨n, hn, -⟩ := hcount (a ++ b) (Nat.le_refl _)
    obtain ⟨k, hk, -⟩ := hcount b (List.suffix_append a b).length_le
    rw [advance_append] at hn
    obtain ⟨m, hm, hbehind⟩ := Fault.bind_eq_ok.mp hn
    refine ⟨m, n, hm, ?_, hbehind, fun hstop => ⟨k, hk, ?_⟩⟩
    · rw [advance_append, hm]
      exact hbehind
    · have hshifted : advance tabSize (0 + m) b = .ok n := by
        rwa [Nat.zero_add]
      rw [advance_add hstop hk hshifted, Nat.add_comm]

/-- Two tabs at a tab size four times which is just in range.  The text with spaces in place of its
tabs is far too long to be written out. -/
theorem count_eq_length_expanded_near_limit :
    let text : Text := "é\t\tb".toList
    1 ≤ 1073741823 ∧ 1073741823 * text.length ≤ largest ∧
      (expanded 1073741823 text).length = 2147483647 ∧
      ∃ m, count ['é', '\t'] 1073741823 = .ok m ∧ 1073741823 ∣ m ∧
        ∃ k, count ['\t', 'b'] 1073741823 = .ok k ∧ 2147483647 = m + k := by
  intro text
  have htab : 1 ≤ 1073741823 := by decide
  have hrange : 1073741823 * text.length ≤ largest := by decide
  have hwhole : count text 1073741823 = .ok 2147483647 := by decide +kernel
  have hfirst : count ['é', '\t'] 1073741823 = .ok 1073741823 := by decide +kernel
  obtain ⟨-, hcount, -, -, -, -, -, hparts⟩ := count_eq_length_expanded htab hrange
  obtain ⟨m, n, hm, hn, -, hstop⟩ := hparts ['é', '\t'] ['\t', 'b'] (by decide)
  obtain rfl := Except.ok.inj (hm.symm.trans hfirst)
  obtain rfl := Except.ok.inj (hn.symm.trans hwhole)
  exact ⟨htab, hrange, Except.ok.inj (hcount.symm.trans hwhole), _, hfirst, Nat.dvd_refl _,
    hstop (Nat.dvd_refl _)⟩

end EditorMode.Column
