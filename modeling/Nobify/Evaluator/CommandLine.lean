import Nobify.Text

/-!
# Command lines

A command line is split into words in one of two ways: as a Unix shell quotes, and as Windows
programs do. The source has two scanners for each way, one that collects all words and one that
takes the program off the front and leaves the arguments as text. The four scanners are written
here as they stand in the source.
-/

namespace Nobify.Evaluator

open List

variable (quote : Option Char) (buf : StringView) (touched : Bool) (input : StringView)

variable {char : Char} {line : StringView}

/-! ## As a Unix shell quotes -/

/-- The inner loop of `eval_split_shell_like_temp`: the word with what was read before, whether
anything was, and the text behind it. `quote` is the quote that is open. -/
def shellWord : Option Char → StringView → Bool → StringView → StringView × Bool × StringView
  | _, buf, touched, [] => (buf, touched, [])
  | some quote, buf, _, char :: rest =>
    if char = quote then shellWord none buf true rest
    else if char = '\\' ∧ quote = '"' then
      match rest with
      | next :: after => shellWord (some quote) (buf ++ [next]) true after
      | [] => shellWord (some quote) (buf ++ [char]) true []
    else shellWord (some quote) (buf ++ [char]) true rest
  | none, buf, touched, char :: rest =>
    if isSpace char then (buf, touched, char :: rest)
    else if char = '"' ∨ char = '\'' then shellWord (some char) buf true rest
    else if char = '\\' then
      match rest with
      | next :: after => shellWord none (buf ++ [next]) true after
      | [] => shellWord none (buf ++ [char]) true []
    else shellWord none (buf ++ [char]) true rest

theorem shellWord_rest_le : (shellWord quote buf touched input).2.2.length ≤ input.length := by
  fun_induction shellWord quote buf touched input <;> grind

/-- A word takes at least its first character. -/
theorem shellWord_rest_lt (solid : isSpace char = false) (buf rest : StringView) (touched : Bool) :
    (shellWord none buf touched (char :: rest)).2.2.length < (char :: rest).length := by
  have later := shellWord_rest_le
  rw [shellWord.eq_def]
  grind

/-- What follows the blanks in front is a text that starts with none. -/
theorem solid_of_dropWhile {input rest : StringView}
    (start : input.dropWhile isSpace = char :: rest) :
    isSpace char = false ∧ (char :: rest).length ≤ input.length := by
  have stops := List.head?_dropWhile_not isSpace input
  have shorter := (dropWhile_suffix isSpace (l := input)).length_le
  rw [start] at stops shorter
  exact ⟨by simpa using stops, shorter⟩

/-- `eval_split_shell_like_temp`. -/
def splitShellLike (input : StringView) : List StringView :=
  match start : input.dropWhile isSpace with
  | [] => []
  | char :: rest =>
    let word := shellWord none [] false (char :: rest)
    have : word.2.2.length < input.length :=
      Nat.lt_of_lt_of_le (shellWord_rest_lt (solid_of_dropWhile start).1 [] rest false)
        (solid_of_dropWhile start).2
    if word.2.1 then svToCstr word.1 :: splitShellLike word.2.2 else splitShellLike word.2.2
termination_by input.length

/-- The loop of `eval_split_unix_program_from_args_temp`: the program with what was read before,
and the text behind it. -/
def unixProgram : Option Char → StringView → StringView → StringView × StringView
  | _, buf, [] => (buf, [])
  | some quote, buf, char :: rest =>
    if char = quote then unixProgram none buf rest
    else if char = '\\' ∧ quote = '"' then
      match rest with
      | next :: after => unixProgram (some quote) (buf ++ [next]) after
      | [] => unixProgram (some quote) (buf ++ [char]) []
    else unixProgram (some quote) (buf ++ [char]) rest
  | none, buf, char :: rest =>
    if isSpace char then (buf, char :: rest)
    else if char = '"' ∨ char = '\'' then unixProgram (some char) buf rest
    else if char = '\\' then
      match rest with
      | next :: after => unixProgram none (buf ++ [next]) after
      | [] => unixProgram none (buf ++ [char]) []
    else unixProgram none (buf ++ [char]) rest

/-- `eval_split_unix_program_from_args_temp`. -/
def splitUnixProgramFromArgs (input : StringView) : StringView × StringView :=
  match input.dropWhile isSpace with
  | [] => ([], [])
  | char :: rest => unixProgram none [] (char :: rest)

/-! ## As Windows programs do -/

/-- The inner loop of `eval_split_windows_command_temp`: the word with what was read before, and
the text behind it. A run of backslashes before a quote stands for half as many. -/
def windowsWord (inQuotes : Bool) (buf : StringView) : StringView → StringView × StringView
  | [] => (buf, [])
  | char :: rest =>
    if inQuotes = false ∧ isSpace char = true then (buf, char :: rest)
    else if char = '\\' then
      let slashCount := (rest.takeWhile (· = '\\')).length + 1
      let behind := rest.dropWhile (· = '\\')
      have : behind.length ≤ rest.length := (dropWhile_suffix _).length_le
      if behind.head? = some '"' then
        let literal := buf ++ List.replicate (slashCount / 2) '\\'
        if slashCount % 2 = 0 then windowsWord (!inQuotes) literal (behind.drop 1)
        else windowsWord inQuotes (literal ++ ['"']) (behind.drop 1)
      else windowsWord inQuotes (buf ++ List.replicate slashCount '\\') behind
    else if char = '"' then
      if inQuotes = true ∧ rest.head? = some '"' then
        windowsWord inQuotes (buf ++ ['"']) (rest.drop 1)
      else windowsWord (!inQuotes) buf rest
    else windowsWord inQuotes (buf ++ [char]) rest
termination_by input => input.length
decreasing_by all_goals grind

theorem windowsWord_rest_le (inQuotes : Bool) (buf input : StringView) :
    (windowsWord inQuotes buf input).2.length ≤ input.length := by
  fun_induction windowsWord inQuotes buf input <;> grind

/-- A word takes at least its first character. -/
theorem windowsWord_rest_lt (solid : isSpace char = false) (buf rest : StringView) :
    (windowsWord false buf (char :: rest)).2.length < (char :: rest).length := by
  have later := windowsWord_rest_le
  have shorter := (dropWhile_suffix (· = '\\') (l := rest)).length_le
  rw [windowsWord.eq_def]
  grind

/-- `eval_split_windows_command_temp`. -/
def splitWindowsCommand (input : StringView) : List StringView :=
  match start : input.dropWhile isSpace with
  | [] => []
  | char :: rest =>
    let word := windowsWord false [] (char :: rest)
    have : word.2.length < input.length :=
      Nat.lt_of_lt_of_le (windowsWord_rest_lt (solid_of_dropWhile start).1 [] rest)
        (solid_of_dropWhile start).2
    word.1 :: splitWindowsCommand word.2
termination_by input.length

/-- The loop of `eval_split_windows_program_from_args_temp`: the program with what was read
before, and the text behind it. -/
def windowsProgram (inQuotes : Bool) (buf : StringView) : StringView → StringView × StringView
  | [] => (buf, [])
  | char :: rest =>
    if inQuotes = false ∧ isSpace char = true then (buf, char :: rest)
    else if char = '\\' then
      let slashCount := (rest.takeWhile (· = '\\')).length + 1
      let behind := rest.dropWhile (· = '\\')
      have : behind.length ≤ rest.length := (dropWhile_suffix _).length_le
      if behind.head? = some '"' then
        let literal := buf ++ List.replicate (slashCount / 2) '\\'
        if slashCount % 2 = 0 then windowsProgram (!inQuotes) literal (behind.drop 1)
        else windowsProgram inQuotes (literal ++ ['"']) (behind.drop 1)
      else windowsProgram inQuotes (buf ++ List.replicate slashCount '\\') behind
    else if char = '"' then
      if inQuotes = true ∧ rest.head? = some '"' then
        windowsProgram inQuotes (buf ++ ['"']) (rest.drop 1)
      else windowsProgram (!inQuotes) buf rest
    else windowsProgram inQuotes (buf ++ [char]) rest
termination_by input => input.length
decreasing_by all_goals grind

/-- `eval_split_windows_program_from_args_temp`. -/
def splitWindowsProgramFromArgs (input : StringView) : StringView × StringView :=
  match input.dropWhile isSpace with
  | [] => ([], [])
  | char :: rest => windowsProgram false [] (char :: rest)

/-! ## The entry points -/

/-- `Eval_Cmdline_Mode`. -/
inductive CmdlineMode where
  | native
  | unix
  | windows
  deriving DecidableEq

/-- `eval_cmdline_mode_normalized`, on a machine of either kind. -/
def cmdlineModeNormalized (isWindows : Bool) : CmdlineMode → CmdlineMode
  | .native => if isWindows then .windows else .unix
  | mode => mode

/-- `eval_split_command_line_temp`. -/
def splitCommandLine (isWindows : Bool) (mode : CmdlineMode) (input : StringView) :
    List StringView :=
  if cmdlineModeNormalized isWindows mode = .windows then splitWindowsCommand input
  else splitShellLike input

/-- `eval_split_program_from_command_line_temp`. -/
def splitProgramFromCommandLine (isWindows : Bool) (mode : CmdlineMode) (input : StringView) :
    StringView × StringView :=
  if cmdlineModeNormalized isWindows mode = .windows then splitWindowsProgramFromArgs input
  else splitUnixProgramFromArgs input

/-! ## The scanners agree -/

/-- The program is scanned as a word is. -/
theorem unixProgram_eq_shellWord : unixProgram quote buf input =
      ((shellWord quote buf touched input).1, (shellWord quote buf touched input).2.2) := by
  fun_induction shellWord quote buf touched input <;> rw [unixProgram.eq_def] <;> grind

theorem windowsProgram_eq_windowsWord (inQuotes : Bool) (buf input : StringView) :
    windowsProgram inQuotes buf input = windowsWord inQuotes buf input := by
  fun_induction windowsWord inQuotes buf input <;> rw [windowsProgram.eq_def] <;> grind

/-- What was touched stays touched. -/
theorem shellWord_keeps : (shellWord quote buf true input).2.1 = true := by
  generalize held : true = touched
  fun_induction shellWord quote buf touched input <;> grind

/-- A word that takes a character was touched. -/
theorem shellWord_touched (solid : isSpace char = false) (buf rest : StringView) :
    (shellWord none buf false (char :: rest)).2.1 = true := by
  have later := shellWord_keeps
  rw [shellWord.eq_def]
  grind

/-- A word is made of characters of the text. -/
theorem mem_shellWord (char : Char) (listed : char ∈ (shellWord quote buf touched input).1) :
    char ∈ buf ∨ char ∈ input := by
  fun_induction shellWord quote buf touched input <;> grind

/-- A line that is not blank goes on after the blanks in front. -/
theorem exists_dropWhile (filled : ∃ char ∈ line, isSpace char = false) :
    ∃ char rest, line.dropWhile isSpace = char :: rest := by
  obtain ⟨char, listed, solid⟩ := filled
  cases start : line.dropWhile isSpace with
  | nil =>
    have blank := dropWhile_eq_nil_iff.mp start char listed
    rw [solid] at blank
    cases blank
  | cons char rest => exact ⟨char, rest, rfl⟩

/-- The first word as a Unix shell quotes, and the words behind it. -/
theorem splitShellLike_eq (nulFree : '\x00' ∉ line) (filled : ∃ char ∈ line, isSpace char = false) :
    splitShellLike line = (splitUnixProgramFromArgs line).1 ::
      splitShellLike (splitUnixProgramFromArgs line).2 := by
  obtain ⟨char, rest, start⟩ := exists_dropWhile filled
  have solid := (solid_of_dropWhile start).1
  have touched := shellWord_touched solid [] rest
  have clean : '\x00' ∉ (shellWord none [] false (char :: rest)).1 := by
    intro listed
    rcases mem_shellWord none [] false (char :: rest) _ listed with before | inside
    · cases before
    · rw [← start] at inside
      exact nulFree ((dropWhile_suffix isSpace).subset inside)
  have program : splitUnixProgramFromArgs line =
      ((shellWord none [] false (char :: rest)).1, (shellWord none [] false (char :: rest)).2.2) := by
    rw [splitUnixProgramFromArgs, start]
    exact unixProgram_eq_shellWord none [] false (char :: rest)
  rw [program, splitShellLike]
  split
  · rename_i nothing
    rw [start] at nothing
    cases nothing
  · rename_i first others again
    rw [start] at again
    cases again
    simp only [touched, if_pos, svToCstr_eq_self clean]

/-- The first word as Windows programs quote, and the words behind it. -/
theorem splitWindowsCommand_eq (filled : ∃ char ∈ line, isSpace char = false) :
    splitWindowsCommand line = (splitWindowsProgramFromArgs line).1 ::
      splitWindowsCommand (splitWindowsProgramFromArgs line).2 := by
  obtain ⟨char, rest, start⟩ := exists_dropWhile filled
  have program : splitWindowsProgramFromArgs line = windowsWord false [] (char :: rest) := by
    rw [splitWindowsProgramFromArgs, start]
    exact windowsProgram_eq_windowsWord false [] (char :: rest)
  rw [program, splitWindowsCommand]
  split
  · rename_i nothing
    rw [start] at nothing
    cases nothing
  · rename_i first others again
    rw [start] at again
    cases again
    rfl

/-- The program of a command line is its first word, and the words of the arguments that are
left are the other words, in every mode. -/
theorem splitProgramFromCommandLine_agrees (isWindows : Bool) (mode : CmdlineMode)
    {line : StringView} (nulFree : '\x00' ∉ line) (filled : ∃ char ∈ line, isSpace char = false) :
    splitCommandLine isWindows mode line = (splitProgramFromCommandLine isWindows mode line).1 ::
        splitCommandLine isWindows mode (splitProgramFromCommandLine isWindows mode line).2 := by
  unfold splitCommandLine splitProgramFromCommandLine
  by_cases windows : cmdlineModeNormalized isWindows mode = .windows
  · simp only [if_pos windows]
    exact splitWindowsCommand_eq filled
  · simp only [if_neg windows]
    exact splitShellLike_eq nulFree filled

/-- A quoted program with a blank in its name and a quote that is never closed behind it. -/
theorem splitProgramFromCommandLine_agrees_quoted :
    splitCommandLine false .unix (sv " \"a b\" 'c") =
      (splitProgramFromCommandLine false .unix (sv " \"a b\" 'c")).1 ::
        splitCommandLine false .unix
          (splitProgramFromCommandLine false .unix (sv " \"a b\" 'c")).2 :=
  splitProgramFromCommandLine_agrees false .unix (by decide) ⟨'a', by decide, by decide⟩

end Nobify.Evaluator
