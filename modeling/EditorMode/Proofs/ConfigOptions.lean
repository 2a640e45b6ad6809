import EditorMode.Cli
import Mathlib.Data.List.Basic
import Mathlib.Data.List.Induction

/-! # Where configuration options stand

An argument that begins with `--config=` is an option wherever it stands, and all others are
operands.  A run sees the operands in their order and of the options the last one
(`lastConfigPath?_eq_bind`), so that options can be moved and earlier ones added without any
effect, and with operands that stop a run before it reads a document (`StopsEarly`) not even the
last option counts. -/

namespace EditorMode.Cli

/-! ## Options and operands -/

/-- An argument that names a configuration. -/
def IsConfigOption (argument : Text) : Prop := "--config=".toList <+: argument

instance (argument : Text) : Decidable (IsConfigOption argument) :=
  inferInstanceAs (Decidable (_ <+: _))

/-- The last configuration option among some arguments. -/
def lastConfigOption? (arguments : List Text) : Option Text :=
  (arguments.filter (IsConfigOption ·)).getLast?

variable {arguments before after : List Text} {argument option : Text}

theorem isSome_configPath?_iff : (configPath? argument).isSome ↔ IsConfigOption argument := by
  rw [Option.isSome_iff_exists]
  constructor
  · rintro ⟨path, hpath⟩
    exact ⟨path, List.isPrefixOf?_eq_some_iff_append_eq.mp hpath⟩
  · rintro ⟨path, hpath⟩
    exact ⟨path, List.isPrefixOf?_eq_some_iff_append_eq.mpr hpath⟩

theorem configPath?_eq_none_iff : configPath? argument = none ↔ ¬ IsConfigOption argument := by
  rw [← isSome_configPath?_iff, Bool.not_eq_true, Option.isSome_eq_false_iff,
    Option.isNone_iff_eq_none]

/-- The operands are the arguments that are no options, in their order. -/
theorem operands_eq_filter (arguments : List Text) :
    operands arguments = arguments.filter (¬ IsConfigOption ·) := by
  refine List.filter_congr fun argument _ => ?_
  rw [Bool.eq_iff_iff, Option.isNone_iff_eq_none, configPath?_eq_none_iff, decide_eq_true_eq]

/-- The configuration of a run is the one that the last option names. -/
theorem lastConfigPath?_eq_bind (arguments : List Text) :
    lastConfigPath? arguments = (lastConfigOption? arguments).bind configPath? := by
  -- From the back, because the last option decides.
  induction arguments using List.reverseRecOn with
  | nil => rfl
  | append_singleton before argument ih =>
    rw [lastConfigPath?, lastConfigOption?, List.filterMap_append, List.filter_append]
    by_cases hoption : IsConfigOption argument
    · obtain ⟨path, hpath⟩ := Option.isSome_iff_exists.mp (isSome_configPath?_iff.mpr hoption)
      simp [hpath, hoption]
    · simpa [configPath?_eq_none_iff.mpr hoption, hoption, lastConfigPath?, lastConfigOption?]
        using ih

/-! ## Moving and adding options -/

/-- What stands before an option is not the last one. -/
theorem lastConfigOption?_append (h : ∃ argument ∈ after, IsConfigOption argument) :
    lastConfigOption? (before ++ after) = lastConfigOption? after := by
  have hne : after.filter (IsConfigOption ·) ≠ [] := by
    obtain ⟨argument, hmem, hoption⟩ := h
    exact List.ne_nil_of_mem (List.mem_filter.mpr ⟨hmem, decide_eq_true hoption⟩)
  rw [lastConfigOption?, List.filter_append, List.getLast?_append_of_ne_nil _ hne,
    lastConfigOption?]

/-- An option behind which only operands stand is the last one. -/
theorem lastConfigOption?_of_last (hoption : IsConfigOption option)
    (h : ¬ ∃ argument ∈ after, IsConfigOption argument) :
    lastConfigOption? (before ++ option :: after) = some option := by
  have hnil : after.filter (IsConfigOption ·) = [] :=
    List.filter_eq_nil_iff.mpr fun argument hmem hdecide =>
      h ⟨argument, hmem, of_decide_eq_true hdecide⟩
  simp [lastConfigOption?, hoption, hnil]

/-- Another option makes no operand. -/
theorem operands_append_option (hoption : IsConfigOption option) :
    (before ++ option :: after).filter (¬ IsConfigOption ·) =
      (before ++ after).filter (¬ IsConfigOption ·) := by
  simp [hoption]

/-- An option can be moved as long as it stays the last one, or stays before another one. -/
theorem lastConfigOption?_move {before' after' : List Text} (hoption : IsConfigOption option)
    (hothers : before ++ after = before' ++ after')
    (hlast : (∃ argument ∈ after, IsConfigOption argument) ↔
      ∃ argument ∈ after', IsConfigOption argument) :
    lastConfigOption? (before ++ option :: after) =
      lastConfigOption? (before' ++ option :: after') := by
  by_cases h : ∃ argument ∈ after, IsConfigOption argument
  · have h' := hlast.mp h
    calc lastConfigOption? (before ++ option :: after)
        = lastConfigOption? ((before ++ [option]) ++ after) := by simp
      _ = lastConfigOption? after := lastConfigOption?_append h
      _ = lastConfigOption? (before ++ after) := (lastConfigOption?_append h).symm
      _ = lastConfigOption? (before' ++ after') := by rw [hothers]
      _ = lastConfigOption? after' := lastConfigOption?_append h'
      _ = lastConfigOption? ((before' ++ [option]) ++ after') := (lastConfigOption?_append h').symm
      _ = lastConfigOption? (before' ++ option :: after') := by simp
  · rw [lastConfigOption?_of_last hoption h, lastConfigOption?_of_last hoption (mt hlast.mpr h)]

/-! ## Operands that stop a run -/

/-- A positive number of 64 bits: digits, with a plus sign before them or not. -/
def IsLineNumber (argument : Text) : Prop :=
  ∃ digits : Text, (argument = digits ∨ argument = '+' :: digits) ∧
    digits ≠ [] ∧ (∀ c ∈ digits, c.isDigit) ∧
    0 < Text.natOfDigits digits ∧ Text.natOfDigits digits ≤ largestLineNumber

/-- The names of the commands that take a file. -/
def fileCommands : List Text := ["lex", "indent", "fold"].map String.toList

/-- Operands that ask for no document, or ask for one in a way that is refused. -/
inductive StopsEarly : List Text → Prop
  | noCommand : StopsEarly []
  | help {command : Text} (others : List Text) (h : command ∈ helpCommands) :
    StopsEarly (command :: others)
  | version {command : Text} (others : List Text) (h : command ∈ versionCommands) :
    StopsEarly (command :: others)
  | unknown {command : Text} (others : List Text)
    (h : command ∉ fileCommands ++ helpCommands ++ versionCommands) :
    StopsEarly (command :: others)
  | noPath {command : Text} (h : command ∈ fileCommands) : StopsEarly [command]
  | noLine (path : Text) : StopsEarly ["fold".toList, path]
  | badLine (path : Text) {number : Text} (others : List Text) (h : ¬ IsLineNumber number) :
    StopsEarly ("fold".toList :: path :: number :: others)

theorem nat?_eq_some_iff {t : Text} {n : Nat} :
    Text.nat? t = some n ↔ t ≠ [] ∧ (∀ c ∈ t, c.isDigit) ∧ Text.natOfDigits t = n := by
  simp [Text.nat?, and_assoc]

/-- A line number is what can be read as an index. -/
theorem isSome_lineIndex?_iff {argument : Text} :
    (lineIndex? argument).isSome ↔ IsLineNumber argument := by
  have hread : ∀ digits : Text,
      (∃ n, Text.nat? digits = some n ∧ 0 < n ∧ n ≤ largestLineNumber) ↔
        digits ≠ [] ∧ (∀ c ∈ digits, c.isDigit) ∧
          0 < Text.natOfDigits digits ∧ Text.natOfDigits digits ≤ largestLineNumber := by
    simp [nat?_eq_some_iff, and_assoc]
  have hsome : (lineIndex? argument).isSome ↔
      ∃ n, Text.nat? (if argument.head? = some '+' then argument.drop 1 else argument) = some n ∧
        0 < n ∧ n ≤ largestLineNumber := by
    simp only [lineIndex?, Option.bind_eq_bind, Option.isSome_iff_exists, Option.bind_eq_some_iff]
    constructor
    · rintro ⟨i, n, hn, h⟩
      split at h
      · exact ⟨n, hn, ‹_›⟩
      · cases h
    · rintro ⟨n, hn, h⟩
      exact ⟨n - 1, n, hn, if_pos h⟩
  rw [hsome, hread]
  constructor
  · intro h
    split at h
    · rename_i hplus
      obtain ⟨digits, rfl⟩ := List.head?_eq_some_iff.mp hplus
      exact ⟨digits, .inr rfl, h⟩
    · exact ⟨argument, .inl rfl, h⟩
  · rintro ⟨digits, rfl | rfl, hne, hdigits, hvalue⟩
    · -- A digit is no plus sign.
      have hhead : argument.head? ≠ some '+' := by
        intro hplus
        have hdigit := hdigits '+' (List.mem_of_mem_head? hplus)
        exact absurd hdigit (by decide)
      rw [if_neg hhead]
      exact ⟨hne, hdigits, hvalue⟩
    · exact ⟨hne, hdigits, hvalue⟩

/-- The request of a command that takes a line, too. -/
theorem foldRequest_eq (path number : Text) (others : List Text) :
    foldRequest (path :: number :: others) =
      (lineIndex? number).elim (.refused (.invalidLineNumber number)) fun i =>
        .run (.fold i) path := by
  rw [foldRequest]
  cases lineIndex? number <;> rfl

/-- With operands that stop it early, a run is not to do a task. -/
theorem request_ne_run_of_stopsEarly {operands : List Text} (h : StopsEarly operands)
    (task : Task) (path : Text) : request operands ≠ .run task path := by
  cases h with
  | noCommand => exact Request.noConfusion
  | help others hmem =>
    simp only [helpCommands, List.map_cons, List.map_nil, List.mem_cons, List.not_mem_nil,
      or_false] at hmem
    rcases hmem with rfl | rfl | rfl <;> exact Request.noConfusion
  | version others hmem =>
    simp only [versionCommands, List.map_cons, List.map_nil, List.mem_cons, List.not_mem_nil,
      or_false] at hmem
    rcases hmem with rfl | rfl | rfl <;> exact Request.noConfusion
  | unknown others hnot =>
    rename_i command
    simp only [fileCommands, List.map_cons, List.map_nil, List.cons_append, List.nil_append,
      List.mem_cons, List.mem_append, not_or] at hnot
    obtain ⟨hlex, hindent, hfold, hhelp, hversion⟩ := hnot
    have hrequest : request (command :: others) = .refused (.unknownCommand command) := by
      rw [request, if_neg hlex, if_neg hindent, if_neg hfold,
        if_neg (mt List.contains_iff_mem.mp hhelp), if_neg (mt List.contains_iff_mem.mp hversion)]
    rw [hrequest]
    exact Request.noConfusion
  | noPath hmem =>
    simp only [fileCommands, List.map_cons, List.map_nil, List.mem_cons, List.not_mem_nil,
      or_false] at hmem
    rcases hmem with rfl | rfl | rfl <;> exact Request.noConfusion
  | noLine only => exact Request.noConfusion
  | badLine file others hnumber =>
    rename_i number
    have hnone : lineIndex? number = none := by
      rw [← Option.not_isSome_iff_eq_none, isSome_lineIndex?_iff]
      exact hnumber
    have hrequest : request ("fold".toList :: file :: number :: others) =
        foldRequest (file :: number :: others) := rfl
    rw [hrequest, foldRequest_eq, hnone]
    exact Request.noConfusion

/-- Operands that do not stop it make a run do a task. -/
theorem exists_request_of_not_stopsEarly {operands : List Text} (h : ¬ StopsEarly operands) :
    ∃ task path, request operands = .run task path := by
  obtain _ | ⟨command, others⟩ := operands
  · exact absurd .noCommand h
  · by_cases hfile : command ∈ fileCommands
    · obtain _ | ⟨path, others⟩ := others
      · exact absurd (.noPath hfile) h
      · simp only [fileCommands, List.map_cons, List.map_nil, List.mem_cons, List.not_mem_nil,
          or_false] at hfile
        rcases hfile with rfl | rfl | rfl
        · exact ⟨.lex, path, rfl⟩
        · exact ⟨.indent, path, rfl⟩
        · obtain _ | ⟨number, others⟩ := others
          · exact absurd (.noLine path) h
          · by_cases hnumber : IsLineNumber number
            · obtain ⟨i, hi⟩ := Option.isSome_iff_exists.mp (isSome_lineIndex?_iff.mpr hnumber)
              refine ⟨.fold i, path, ?_⟩
              have hrequest : request ("fold".toList :: path :: number :: others) =
                  foldRequest (path :: number :: others) := rfl
              rw [hrequest, foldRequest_eq, hi]
              rfl
            · exact absurd (.badLine path others hnumber) h
    · by_cases hhelp : command ∈ helpCommands
      · exact absurd (.help others hhelp) h
      · by_cases hversion : command ∈ versionCommands
        · exact absurd (.version others hversion) h
        · refine absurd (.unknown others ?_) h
          simp only [List.mem_append, not_or]
          exact ⟨⟨hfile, hhelp⟩, hversion⟩

/-- A request for no task is answered without any file. -/
theorem respond_of_not_run {decoder decoder' : Config.Decoder}
    {read read' : Text → Except FileError Text} {path path' : Option Text} {r : Request}
    (h : ∀ task path, r ≠ .run task path) :
    respond decoder read path r = respond decoder' read' path' r := by
  cases r with
  | usage | version | refused refusal => rfl
  | run task path => exact absurd rfl (h task path)

/-! ## Runs -/

/-- **Of the options, the last one counts.**  What a run leaves depends on the operands and on the
last option only.  So an option may stand anywhere, as long as it stays the last one or stays before
another one, and an option before another one may as well not be there.  A run that is stopped
before it reads a document depends on no option and on no file at all, and these are exactly the
runs that do no task. -/
theorem run_depends_on_last_option :
    (∀ decoder read arguments arguments',
      arguments.filter (¬ IsConfigOption ·) = arguments'.filter (¬ IsConfigOption ·) →
      (arguments.filter (IsConfigOption ·)).getLast? =
        (arguments'.filter (IsConfigOption ·)).getLast? →
      run decoder read arguments = run decoder read arguments') ∧
    (∀ decoder read option before after before' after', IsConfigOption option →
      before ++ after = before' ++ after' →
      ((∃ argument ∈ after, IsConfigOption argument) ↔
        ∃ argument ∈ after', IsConfigOption argument) →
      run decoder read (before ++ option :: after) =
        run decoder read (before' ++ option :: after')) ∧
    (∀ decoder read option before after, IsConfigOption option →
      (∃ argument ∈ after, IsConfigOption argument) →
      run decoder read (before ++ option :: after) = run decoder read (before ++ after)) ∧
    (∀ decoder decoder' read read' arguments arguments',
      StopsEarly (arguments.filter (¬ IsConfigOption ·)) →
      arguments.filter (¬ IsConfigOption ·) = arguments'.filter (¬ IsConfigOption ·) →
      run decoder read arguments = run decoder' read' arguments') ∧
    ∀ operands, StopsEarly operands ↔ ∀ task path, request operands ≠ .run task path := by
  have hrun : ∀ decoder read arguments arguments',
      arguments.filter (¬ IsConfigOption ·) = arguments'.filter (¬ IsConfigOption ·) →
      lastConfigOption? arguments = lastConfigOption? arguments' →
      run decoder read arguments = run decoder read arguments' := by
    intro decoder read arguments arguments' hoperands hlast
    rw [run_eq_respond, run_eq_respond, operands_eq_filter, operands_eq_filter, hoperands,
      lastConfigPath?_eq_bind, lastConfigPath?_eq_bind, hlast]
  refine ⟨hrun, ?_, ?_, ?_, ?_⟩
  · intro decoder read option before after before' after' hoption hothers hlast
    refine hrun decoder read _ _ ?_ (lastConfigOption?_move hoption hothers hlast)
    rw [operands_append_option hoption, operands_append_option hoption, hothers]
  · intro decoder read option before after hoption hlast
    refine hrun decoder read _ _ (operands_append_option hoption) ?_
    have hassoc : before ++ option :: after = before ++ [option] ++ after := by simp
    rw [hassoc, lastConfigOption?_append hlast, lastConfigOption?_append hlast]
  · intro decoder decoder' read read' arguments arguments' hstops hoperands
    rw [run_eq_respond, run_eq_respond, operands_eq_filter, operands_eq_filter, ← hoperands]
    exact respond_of_not_run (request_ne_run_of_stopsEarly hstops)
  · intro operands
    refine ⟨fun h => request_ne_run_of_stopsEarly h, fun h => ?_⟩
    by_contra hstops
    obtain ⟨task, path, hrequest⟩ := exists_request_of_not_stopsEarly hstops
    exact h task path hrequest

/-- A configuration that makes a difference, named before the command or behind the file, with and
without one before it that is missing; and a line number that stops a run in spite of a missing
configuration. -/
theorem run_depends_on_last_option_before_command :
    let read : Text → Except FileError Text := fun path =>
      if path = "c".toList then .ok "[2]".toList
      else if path = "f".toList then .ok "a \x7b\n  b.\n\x7d".toList
      else .error .notFound
    let other : Text := "--config=missing".toList
    let option : Text := "--config=c".toList
    let task : List Text := ["indent".toList, "f".toList]
    let fold : List Text := ["fold".toList, "f".toList, "+0".toList]
    run .plain read (option :: task) = run .plain read (task ++ [option]) ∧
      run .plain read (other :: task ++ [option]) = run .plain read (task ++ [option]) ∧
      (run .plain read (task ++ [option])).exit = 0 ∧ (run .plain read task).exit = 1 ∧
      ¬ IsLineNumber "+0".toList ∧
      run .plain read (other :: fold) = run .plain (fun _ => .error .notFound) fold := by
  intro read other option task fold
  have hnumber : ¬ IsLineNumber "+0".toList := by
    rw [← isSome_lineIndex?_iff]
    decide
  obtain ⟨-, hmove, hadd, hstop, -⟩ := run_depends_on_last_option
  refine ⟨?_, ?_, by decide +kernel, by decide +kernel, hnumber, ?_⟩
  · exact hmove .plain read option [] task task [] (by decide) (by decide) (by decide)
  · exact hadd .plain read other [] (task ++ [option]) (by decide) (by decide)
  · exact hstop _ _ _ _ _ _ (.badLine "f".toList [] hnumber) (by decide)

end EditorMode.Cli
