import EditorMode.Proofs.Movement
import EditorMode.Proofs.Scanning

/-! # Skipping to a character

A cursor skips to a character by searching the bytes of the rest, which for an ASCII character is a
search for a single byte.  What it comes to is told by the characters alone: the first occurrence in
the rest, which stands behind as many bytes as the characters before it take, and hence at a
boundary of the line. -/

namespace EditorMode.Cursor

variable {s : Cursor} {read : Text} {c : Char}

theorem skipTo?_append {skipped others : Text} (hrest : s.rest = skipped ++ c :: others)
    (h : c ∉ skipped) : s.skipTo? c = some (s.forward skipped.length) := by
  rw [skipTo?, hrest, Text.cutBefore?_append h, Option.map_some]

theorem skipTo?_of_notMem (h : c ∉ s.rest) : s.skipTo? c = none := by
  rw [skipTo?, Text.cutBefore?_of_notMem h, Option.map_none]

/-- **A cursor skips to the first occurrence.**  Take a cursor at any boundary of any line, and any
character.

* Searching the bytes of the rest finds what looking at one character after the other finds, be it a
  search for the byte of an ASCII character or for the encoding of any other.
* If the character occurs in the rest, the cursor skips what stands before the first occurrence.  It
  then stands at the boundary before this occurrence, which is as many bytes further on, and reads
  it next.
* If it does not, there is nothing to skip to, and the cursor stays as it is. -/
theorem skips_to_first_occurrence (h : s.StandsAt read) (c : Char) :
    (c.toNat < 128 → (Text.encode s.rest).idxOf? c.toUInt8 = Text.scanOffset? c s.rest) ∧
    Text.sliceOffset? (String.utf8EncodeChar c) (Text.encode s.rest) = Text.scanOffset? c s.rest ∧
    Text.offsetOf? c s.rest = Text.scanOffset? c s.rest ∧
    (c ∈ s.rest → ∃ skipped others, s.rest = skipped ++ c :: others ∧ c ∉ skipped ∧
      Text.scanOffset? c s.rest = some (Text.byteLength skipped) ∧
      s.skipTo? c = some (s.forward skipped.length) ∧
      s.perform (.skipTo c) = .ok (s.forward skipped.length) ∧
      (s.forward skipped.length).pos = s.pos + Text.byteLength skipped ∧
      (s.forward skipped.length).StandsAt (read ++ skipped) ∧
      (s.forward skipped.length).peek? = some c) ∧
    (c ∉ s.rest → Text.scanOffset? c s.rest = none ∧ s.skipTo? c = none ∧
      s.perform (.skipTo c) = .ok s) := by
  refine ⟨fun hascii => ?_, Text.sliceOffset?_encode c s.rest,
    Text.offsetOf?_eq_scanOffset? c s.rest, fun hc => ?_, fun hc => ?_⟩
  · rw [← Text.byteOffset?_eq_idxOf?, Text.byteOffset?_toUInt8 hascii]
  · obtain ⟨skipped, others, hrest, hfirst⟩ := List.eq_append_cons_of_mem hc
    have htake : s.rest.take skipped.length = skipped := by
      rw [hrest, List.take_left]
    have hskip : s.skipTo? c = some (s.forward skipped.length) := skipTo?_append hrest hfirst
    refine ⟨skipped, others, hrest, hfirst, ?_, hskip, ?_, ?_, ?_, ?_⟩
    · rw [hrest, Text.scanOffset?_append hfirst]
    · rw [perform, hskip, Option.getD_some]
    · rw [pos_forward, htake]
    · have hstands := h.forward skipped.length
      rwa [htake] at hstands
    · rw [peek?, rest_forward, hrest, List.drop_left, List.head?_cons]
  · have hskip : s.skipTo? c = none := skipTo?_of_notMem hc
    refine ⟨Text.scanOffset?_eq_none_iff.mpr hc, hskip, ?_⟩
    rw [perform, hskip, Option.getD_none]

/-- Behind the `a`, to the first of two arrows and over it to the `b`.  The encoding of `ã` begins
as that of `é` does, but it does not occur. -/
theorem skips_to_first_occurrence_arrows :
    let s := (ofLine "aé→b→".toList 4).forward 1
    s.StandsAt ['a'] ∧ '→' ∈ s.rest ∧ 'b' ∈ s.rest ∧ 'ã' ∉ s.rest ∧
      (∃ t, s.skipTo? '→' = some t ∧ t.pos = 3 ∧ t.peek? = some '→') ∧
      (∃ t, s.skipTo? 'b' = some t ∧ t.pos = 6 ∧ t.peek? = some 'b') ∧
      s.skipTo? 'ã' = none := by
  intro s
  have hstands : s.StandsAt ['a'] := rfl
  have harrow : '→' ∈ s.rest := by decide
  have hb : 'b' ∈ s.rest := by decide
  have habsent : 'ã' ∉ s.rest := by decide
  obtain ⟨-, -, -, hto, -⟩ := skips_to_first_occurrence hstands '→'
  obtain ⟨skipped, others, -, -, hoffset, hskip, -, hpos, -, hpeek⟩ := hto harrow
  obtain ⟨-, -, -, hto', -⟩ := skips_to_first_occurrence hstands 'b'
  obtain ⟨skipped', others', -, -, hoffset', hskip', -, hpos', -, hpeek'⟩ := hto' hb
  obtain ⟨-, -, -, -, hstays⟩ := skips_to_first_occurrence hstands 'ã'
  have htwo : Text.byteLength skipped = 2 := by
    apply Option.some.inj
    rw [← hoffset]
    decide
  have hfive : Text.byteLength skipped' = 5 := by
    apply Option.some.inj
    rw [← hoffset']
    decide
  refine ⟨hstands, harrow, hb, habsent, ⟨_, hskip, ?_, hpeek⟩, ⟨_, hskip', ?_, hpeek'⟩,
    (hstays habsent).2.1⟩
  · rw [hpos, htwo]
    rfl
  · rw [hpos', hfive]
    rfl

end EditorMode.Cursor
