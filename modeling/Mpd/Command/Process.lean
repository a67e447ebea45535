import Mpd.Command.Tokenizer
import Mpd.Command.Registry
import Mpd.Database.Locate

/-!
# Processing a command line

`command_process` of `command.c`: split the line into a command word and its arguments, look the
word up, check the permission and the number of arguments, and run the handler. The handlers are
arbitrary here.

`ReportsErrors` says what a client may rely on: "OK" means that a handler has run and succeeded, and
a line that is not well formed is refused with a message. The tokenizers report failure in two ways,
and the null pointer of one of them, read as an error number, is `MPD_SUCCESS`. `reportsErrors_iff`
says on which lines the client may rely on it nevertheless.
-/

namespace Mpd

open List Tokenizer

def commandArgvMax : ℕ := 2 + tagNumOfItemTypes * 2

abbrev Handlers (S : Type) :=
  Handler → Server S → List Text → Except CommandFault (CommandReturn × Server S)

def Token.ptrErr : Token → ℤ
  | .err code => code
  | _ => 0

namespace Server

variable {S : Type} (p : Platform) (handle : Handlers S)

def commandCheckRequest (s : Server S) (cmd : Command) (argv : List Text) :
    Except CommandFault (Bool × Server S) :=
  let min := cmd.min + 1
  let max := cmd.max + 1
  let argc : ℤ := argv.length
  let refuse (error : Ack) (text : String) (name : Text) : Except CommandFault (Bool × Server S) :=
    return (false, ← s.commandError p error (text.toList ++ ['"'] ++ name ++ ['"']))
  if cmd.permission ≠ s.permission &&& cmd.permission then
    refuse .permission "you don't have permission for " cmd.cmd
  else if min = 0 then .ok (true, s)
  else if min = max ∧ max ≠ argc then
    refuse .arg "wrong number of arguments for " (argv.headD [])
  else if argc < min then refuse .arg "too few arguments for " (argv.headD [])
  else if max < argc ∧ max ≠ 0 then refuse .arg "too many arguments for " (argv.headD [])
  else .ok (true, s)

def commandCheckedLookup (s : Server S) (argv : List Text) :
    Except CommandFault (Option Command × Server S) := do
  let s := { s with currentCommand := some [] }
  match argv with
  | [] => return (none, s)
  | name :: _ =>
    match commandLookup (commands p.enableSticker) name with
    | none =>
      return (none,
        ← s.commandError p .unknown ("unknown command ".toList ++ ['"'] ++ name ++ ['"']))
    | some cmd =>
      let (accepted, s) ← commandCheckRequest p { s with currentCommand := some cmd.cmd } cmd argv
      return (if accepted then some cmd else none, s)

def invoke (s : Server S) (argv : List Text) : Except CommandFault (CommandReturn × Server S) := do
  let (cmd, s) ← s.commandCheckedLookup p argv
  let (ret, s) ←
    match cmd with
    | some cmd => handle cmd.handler s argv
    | none => pure (.error, s)
  return (ret, { s with currentCommand := none, commandListNum := 0 })

def nextParams : ℕ → Text → List Text × Token × Text
  | 0, line => ([], .null, line)
  | n + 1, line =>
    match nextParam line with
    | (.str arg, line) =>
      let (args, last, line) := nextParams n line
      (arg :: args, last, line)
    | (last, line) => ([], last, line)

def commandProcess (s : Server S) (num : ℕ) (line : Text) :
    Except CommandFault (CommandReturn × Server S) :=
  let s := { s with commandListNum := num }
  match nextWord line with
  | (.str word, line) =>
    match nextParams (commandArgvMax - 1) line with
    | (args, last, line) => do
      -- current_command has to be set because command_error() expects it to be set
      let s := { s with currentCommand := some word }
      if commandArgvMax ≤ 1 + args.length then
        let s ← s.commandError p .arg "Too many arguments".toList
        return (.error, { s with currentCommand := none })
      else if line ≠ [] then printError2 p { s with currentCommand := none } last.ptrErr
      else s.invoke p handle (word :: args)
  | (token, line) => do
    let s := { s with currentCommand := none }
    if line = [] then
      let s ← s.commandError p .unknown "No command given".toList
      return (.error, s)
    else s.printError2 p token.ptrErr

/-! ### What a client may rely on -/

def Ran (s : Server S) (cmd : Command) (args : List Text) (r : CommandReturn × Server S) : Prop :=
  ∃ t, handle cmd.handler { s with currentCommand := some cmd.cmd } (cmd.cmd :: args) =
      .ok (r.1, t) ∧
    r.2 = { t with currentCommand := none, commandListNum := 0 }

/-- **Errors are reported**: "OK" means that the line is well formed, that it names a command the
client may use with as many arguments, and that its handler has run and returned "OK"; and a line
that is not well formed is answered by an error and a message. -/
structure ReportsErrors (s : Server S) (num : ℕ) (line : Text) : Prop where
  ok_only : ∀ s', s.commandProcess p handle num line = .ok (.ok, s') →
    ∃ word args, WellFormed line word args ∧ ∃ cmd ∈ commands p.enableSticker, cmd.cmd = word ∧
      cmd.Permits s.permission ∧ cmd.Accepts args.length ∧
      Ran handle { s with commandListNum := num } cmd args (.ok, s')
  malformed : (¬ ∃ word args, WellFormed line word args) →
    (s.commandProcess p handle num line).Succeeds fun r =>
      r.1 = .error ∧ ∃ error name text, r.2.output = s.output ++ ackLine error num name text

/-- The line is read as a command, or its error is reported. -/
def Heard (line : Text) : Prop :=
  (∃ word args, WellFormed line word args) ∨
  (∃ word rest args rest', Bare validWordFirstChar validWordChar line word rest ∧
    Arguments rest args rest' ∧ commandArgvMax - 1 ≤ args.length) ∨
  p.assertions = false ∧
    (line = [] ∨ ∃ word rest args rest', Bare validWordFirstChar validWordChar line word rest ∧
      Arguments rest args rest' ∧ rest' ≠ [] ∧ rest'.head? ≠ some '"' ∧
      ∀ s rest, ¬ Argument rest' s rest)

variable {p handle} {s : Server S} {line : Text}

/-! ### Reading a line -/

theorem nextParams_cases (n : ℕ) (line : Text) :
    (∃ args rest, Arguments line args rest ∧ args.length = n ∧
      nextParams n line = (args, .null, rest)) ∨
    ∃ args rest, Arguments line args rest ∧ args.length < n ∧ (∀ s r, ¬ Argument rest s r) ∧
      nextParams n line = (args, nextParam rest) := by
  induction n generalizing line with
  | zero => exact .inl ⟨[], line, .nil, rfl, rfl⟩
  | succ n ih =>
    by_cases harg : ∃ s r, Argument line s r
    · obtain ⟨s, r, hs⟩ := harg
      have hstep : nextParams (n + 1) line =
          (s :: (nextParams n r).1, (nextParams n r).2.1, (nextParams n r).2.2) := by
        rw [nextParams, nextParam_eq_str_iff.mpr hs]
      obtain ⟨args, rest, hargs, hlen, heq⟩ | ⟨args, rest, hargs, hlen, hend, heq⟩ := ih r
      · refine .inl ⟨s :: args, rest, .cons hs hargs, congrArg (· + 1) hlen, ?_⟩
        rw [hstep, heq]
      · refine .inr ⟨s :: args, rest, .cons hs hargs, Nat.succ_lt_succ hlen, hend, ?_⟩
        rw [hstep, heq]
    · push Not at harg
      refine .inr ⟨[], line, .nil, n.succ_pos, harg, ?_⟩
      rw [nextParams]
      split
      · next arg rest heq => exact absurd (nextParam_eq_str_iff.mp heq) (harg _ _)
      · next last rest heq => rw [heq]

inductive Reading (line : Text) : Prop
  /-- there is nothing to read -/
  | empty (h : line = [])
  /-- the first word is malformed -/
  | badWord {cursor : Text} (hcursor : cursor ≠ []) (h : nextWord line = (.null, cursor))
  /-- there are too many arguments -/
  | tooMany {word rest rest' : Text} {args : List Text} (hword : nextWord line = (.str word, rest))
      (hargs : Arguments rest args rest') (hlen : args.length = commandArgvMax - 1)
      (h : nextParams (commandArgvMax - 1) rest = (args, .null, rest'))
  /-- all arguments have been read, up to the end of the line or to one that is malformed -/
  | stop {word rest rest' : Text} {args : List Text} (hword : nextWord line = (.str word, rest))
      (hargs : Arguments rest args rest') (hlen : args.length < commandArgvMax - 1)
      (hend : ∀ s r, ¬ Argument rest' s r)
      (h : nextParams (commandArgvMax - 1) rest = (args, nextParam rest'))

theorem reading (line : Text) : Reading line := by
  obtain ⟨rfl, -⟩ | ⟨word, rest, hword⟩ | ⟨cursor, hcursor, hword⟩ :=
    nextBare_cases validWordFirstChar validWordChar .null line
  · exact .empty rfl
  · obtain ⟨args, rest', hargs, hlen, h⟩ | ⟨args, rest', hargs, hlen, hend, h⟩ :=
      nextParams_cases (commandArgvMax - 1) rest
    · exact .tooMany hword hargs hlen h
    · exact .stop hword hargs hlen hend h
  · exact .badWord hcursor hword

/-! ### The verdict on each kind of line -/

variable {num : ℕ} {word rest rest' : Text} {args : List Text}

theorem commandProcess_badWord {cursor : Text} (hcursor : cursor ≠ [])
    (h : nextWord line = (.null, cursor)) :
    s.commandProcess p handle num line =
      .ok (.ok, { s with commandListNum := num, currentCommand := none }) := by
  simp only [commandProcess, h, if_neg hcursor]
  exact printError2_zero

theorem commandProcess_empty (p : Platform) (handle : Handlers S) (s : Server S) (num : ℕ) :
    s.commandProcess p handle num [] =
      if p.assertions then .error .noCurrentCommand
      else .ok (.error, write { s with commandListNum := num, currentCommand := none }
        (ackLine .unknown num p.nullText "No command given".toList)) := by
  simp only [commandProcess, show nextWord [] = (.null, []) from rfl, if_true]
  rw [commandError_of_none rfl]
  split <;> rfl

theorem commandProcess_tooMany (hword : nextWord line = (.str word, rest))
    (hlen : args.length = commandArgvMax - 1)
    (h : nextParams (commandArgvMax - 1) rest = (args, .null, rest')) :
    s.commandProcess p handle num line =
      .ok (.error, { s.write (ackLine .arg num word "Too many arguments".toList) with
        commandListNum := num, currentCommand := none }) := by
  have hmax : commandArgvMax ≤ 1 + args.length := by
    rw [hlen]
    decide
  simp only [commandProcess, hword, h, if_pos hmax]
  rfl

theorem commandProcess_stop (p : Platform) (handle : Handlers S) (s : Server S) (num : ℕ)
    (hword : nextWord line = (.str word, rest))
    (hlen : args.length < commandArgvMax - 1) (hend : ∀ s r, ¬ Argument rest' s r)
    (h : nextParams (commandArgvMax - 1) rest = (args, nextParam rest')) :
    s.commandProcess p handle num line =
      if rest' = [] then
        invoke p handle { s with commandListNum := num, currentCommand := some word } (word :: args)
      else if rest'.head? = some '"' then
        .ok (.ok, { s with commandListNum := num, currentCommand := none })
      else if p.assertions then .error .noCurrentCommand
      else .ok (.error, write { s with commandListNum := num, currentCommand := none }
        (ackLine .unknown num p.nullText "Invalid unquoted character".toList)) := by
  have hmax : ¬ commandArgvMax ≤ 1 + args.length := by
    omega
  obtain ⟨rfl, hnext⟩ | ⟨t, r, hnext⟩ | ⟨cursor, hcursor, hnext⟩ := nextParam_cases rest'
  · simp only [commandProcess, hword, h, hnext, if_neg hmax, if_true, ne_eq, not_true_eq_false,
      if_false]
  · exact absurd (nextParam_eq_str_iff.mp hnext) (hend _ _)
  · have hne : rest' ≠ [] := by
      rintro rfl
      exact hcursor (congrArg Prod.snd hnext).symm
    simp only [commandProcess, hword, h, hnext, if_neg hmax, if_neg hne, ne_eq, hcursor,
      not_false_eq_true, if_true]
    split
    · exact printError2_zero
    · rw [Token.ptrErr, printError2_cmdQuote, commandError_of_none rfl]
      split <;> rfl

/-! ### The lookup -/

theorem commandCheckRequest_of_accepts {cmd : Command} (hpermit : cmd.Permits s.permission)
    (haccept : cmd.Accepts args.length) :
    s.commandCheckRequest p cmd (word :: args) = .ok (true, s) := by
  have hpermit' : ¬ cmd.permission ≠ s.permission &&& cmd.permission := not_not.mpr hpermit
  simp only [Command.Accepts] at haccept
  simp only [commandCheckRequest, length_cons, if_neg hpermit']
  split
  · rfl
  · rw [if_neg (by omega), if_neg (by omega), if_neg (by omega)]

theorem commandCheckRequest_yields {cmd : Command} :
    (s.commandCheckRequest p cmd (word :: args)).Yields fun r => r.2.world = s.world ∧
      (r.1 = true → r.2 = s ∧ cmd.Permits s.permission ∧ cmd.Accepts args.length) := by
  have hrefuse : ∀ error text, (do
      let s ← s.commandError p error text
      pure (false, s) : Except CommandFault (Bool × Server S)).Yields fun r =>
        r.2.world = s.world ∧
          (r.1 = true → r.2 = s ∧ cmd.Permits s.permission ∧ cmd.Accepts args.length) :=
    fun error text => commandError_yields.bind fun t ht => .ok ⟨ht, nofun⟩
  refine .ite (fun _ => hrefuse _ _) fun hpermit => .ite (fun hmin => ?_) fun hmin =>
    .ite (fun _ => hrefuse _ _) fun hexact => .ite (fun _ => hrefuse _ _) fun hfew =>
    .ite (fun _ => hrefuse _ _) fun hmany => ?_
  all_goals
    refine .ok ⟨rfl, fun _ => ⟨rfl, not_not.mp hpermit, ?_⟩⟩
    simp only [Command.Accepts, length_cons] at *
    omega

theorem commandCheckedLookup_yields :
    (s.commandCheckedLookup p (word :: args)).Yields fun r => r.2.world = s.world ∧
      ∀ cmd, r.1 = some cmd →
        cmd ∈ commands p.enableSticker ∧ cmd.cmd = word ∧ cmd.Permits s.permission ∧
          cmd.Accepts args.length ∧ r.2 = { s with currentCommand := some cmd.cmd } := by
  rw [commandCheckedLookup]
  cases hlookup : commandLookup (commands p.enableSticker) word with
  | none => exact commandError_yields.bind fun t ht => .ok ⟨ht, nofun⟩
  | some entry =>
    obtain ⟨hmem, hname⟩ := commandLookup_eq_some_iff.mp hlookup
    refine commandCheckRequest_yields.bind fun r hr => .ok
      ⟨hr.1, fun cmd hcmd => ?_⟩
    obtain ⟨haccepted, rfl⟩ : r.1 = true ∧ entry = cmd := by
      simpa only [Option.ite_none_right_eq_some, Option.some.injEq] using hcmd
    obtain ⟨hserver, hpermit, haccept⟩ := hr.2 haccepted
    exact ⟨hmem, hname, hpermit, haccept, hserver⟩

theorem invoke_of_accepts {cmd : Command} (hmem : cmd ∈ commands p.enableSticker)
    (hpermit : cmd.Permits s.permission) (haccept : cmd.Accepts args.length) :
    s.invoke p handle (cmd.cmd :: args) = (do
      let r ← handle cmd.handler { s with currentCommand := some cmd.cmd } (cmd.cmd :: args)
      pure (r.1, { r.2 with currentCommand := none, commandListNum := 0 })) := by
  have hlookup : s.commandCheckedLookup p (cmd.cmd :: args) =
      .ok (some cmd, { s with currentCommand := some cmd.cmd }) := by
    have hpermit' : cmd.Permits { s with currentCommand := some cmd.cmd }.permission := hpermit
    simp only [commandCheckedLookup, commandLookup_eq_some_iff.mpr ⟨hmem, rfl⟩]
    rw [commandCheckRequest_of_accepts hpermit' haccept]
    rfl
  rw [invoke, hlookup]
  rfl

theorem invoke_yields : (s.invoke p handle (word :: args)).Yields fun r =>
      (∃ cmd ∈ commands p.enableSticker, cmd.cmd = word ∧ cmd.Permits s.permission ∧
        cmd.Accepts args.length ∧ Ran handle s cmd args r) ∨
      r.1 = .error ∧ r.2.world = s.world := by
  refine commandCheckedLookup_yields.bind fun r hr => ?_
  obtain ⟨_ | cmd, t⟩ := r
  · exact .ok (.inr ⟨rfl, hr.1⟩)
  · obtain ⟨hmem, rfl, hpermit, haccept, rfl⟩ := hr.2 cmd rfl
    refine .bind (fun _ hrun => hrun) fun r' hrun => .ok (.inl ?_)
    exact ⟨cmd, hmem, rfl, hpermit, haccept, r'.2, hrun, rfl⟩

/-! ### Well-formed and heard lines -/

theorem wellFormed_iff_of_stop (hword : nextWord line = (.str word, rest))
    (hargs : Arguments rest args rest') (hend : ∀ s r, ¬ Argument rest' s r) :
    (∃ word args, WellFormed line word args) ↔ rest' = [] := by
  constructor
  · rintro ⟨word', args', rest'', hbare, hargs'⟩
    obtain ⟨-, rfl⟩ := nextWord_eq_of_bare hword hbare
    obtain ⟨more, -, hmore⟩ := hargs.extend hend hargs'
    exact (hmore.eq_nil fun _ _ => not_argument_nil).2
  · rintro rfl
    exact ⟨word, args, rest, nextWord_eq_str_iff.mp hword, hargs⟩

theorem nextParams_of_arguments {n : ℕ} (h : Arguments rest args []) (hlen : args.length < n) :
    nextParams n rest = (args, .null, []) := by
  obtain ⟨args', rest', hargs', hlen', -⟩ | ⟨args', rest', hargs', -, hend, heq⟩ :=
    nextParams_cases n rest
  · obtain ⟨more, rfl, -⟩ := h.extend (fun _ _ => not_argument_nil) hargs'
    rw [length_append] at hlen
    omega
  · obtain ⟨more, rfl, hmore⟩ := hargs'.extend hend h
    obtain ⟨rfl, rfl⟩ := hmore.eq_nil fun _ _ => not_argument_nil
    rw [heq, append_nil]
    rfl

theorem commandProcess_of_wellFormed (h : WellFormed line word args)
    (hlen : args.length < commandArgvMax - 1) :
    s.commandProcess p handle num line =
      invoke p handle { s with commandListNum := num, currentCommand := some word }
        (word :: args) := by
  obtain ⟨rest, hbare, hargs⟩ := h
  have hstop := commandProcess_stop p handle s num (nextWord_eq_str_iff.mpr hbare) hlen
    (fun _ _ => not_argument_nil) (nextParams_of_arguments hargs hlen)
  rwa [if_pos rfl] at hstop

theorem commandProcess_yields : (s.commandProcess p handle num line).Yields fun r =>
      (∃ word args, WellFormed line word args ∧ args.length < commandArgvMax - 1 ∧
        ∃ cmd ∈ commands p.enableSticker, cmd.cmd = word ∧ cmd.Permits s.permission ∧
          cmd.Accepts args.length ∧ Ran handle { s with commandListNum := num } cmd args r) ∨
      r.2.world = s.world := by
  cases reading line with
  | empty hline =>
    subst hline
    rw [commandProcess_empty]
    exact .branch .error <| .ok (.inr rfl)
  | badWord hcursor hword =>
    rw [commandProcess_badWord hcursor hword]
    exact .ok (.inr rfl)
  | tooMany hword hargs hlen h =>
    rw [commandProcess_tooMany hword hlen h]
    exact .ok (.inr rfl)
  | @stop word rest rest' args hword hargs hlen hend h =>
    rw [commandProcess_stop p handle s num hword hlen hend h]
    refine .ite (fun hne => ?_) fun _ => .branch (.ok (.inr rfl)) <|
      .branch .error <| .ok (.inr rfl)
    subst hne
    refine invoke_yields.mono fun r hr => hr.imp (fun hran => ?_) And.right
    exact ⟨word, args, ⟨rest, nextWord_eq_str_iff.mp hword, hargs⟩, hlen, hran⟩

theorem not_wellFormed_of_badWord {cursor : Text} (h : nextWord line = (.null, cursor)) :
    ¬ ∃ word args, WellFormed line word args := by
  rintro ⟨word, args, rest, hbare, -⟩
  cases (nextWord_eq_of_bare h hbare).1

theorem not_heard_of_badWord {cursor : Text} (hcursor : cursor ≠ [])
    (h : nextWord line = (.null, cursor)) : ¬ Heard p line := by
  rintro (hline | ⟨_, _, _, _, hbare, -⟩ | ⟨-, rfl | ⟨_, _, _, _, hbare, -⟩⟩)
  · exact not_wellFormed_of_badWord h hline
  · cases (nextWord_eq_of_bare h hbare).1
  · exact hcursor (congrArg Prod.snd h).symm
  · cases (nextWord_eq_of_bare h hbare).1

theorem heard_nil_iff : Heard p [] ↔ p.assertions = false := by
  constructor
  · rintro (⟨_, _, _, hbare, -⟩ | ⟨_, _, _, _, hbare, -⟩ | ⟨hbuild, -⟩)
    · cases (nextWord_eq_of_bare rfl hbare).1
    · cases (nextWord_eq_of_bare rfl hbare).1
    · exact hbuild
  · exact fun hbuild => .inr (.inr ⟨hbuild, .inl rfl⟩)

theorem heard_iff_of_stop (hword : nextWord line = (.str word, rest))
    (hargs : Arguments rest args rest') (hlen : args.length < commandArgvMax - 1)
    (hend : ∀ s r, ¬ Argument rest' s r) (hne : rest' ≠ []) :
    Heard p line ↔ rest'.head? ≠ some '"' ∧ p.assertions = false := by
  constructor
  · rintro (hline | ⟨_, _, args', _, hbare, hargs', hmany⟩ | ⟨hbuild, rfl | hstop⟩)
    · exact absurd ((wellFormed_iff_of_stop hword hargs hend).mp hline) hne
    · obtain ⟨-, rfl⟩ := nextWord_eq_of_bare hword hbare
      obtain ⟨more, rfl, -⟩ := hargs.extend hend hargs'
      rw [length_append] at hlen
      omega
    · cases hword
    · obtain ⟨_, _, args', rest'', hbare, hargs', -, hquote, hend'⟩ := hstop
      obtain ⟨-, rfl⟩ := nextWord_eq_of_bare hword hbare
      obtain ⟨more, -, hmore⟩ := hargs.extend hend hargs'
      obtain ⟨-, rfl⟩ := hmore.eq_nil hend'
      exact ⟨hquote, hbuild⟩
  · rintro ⟨hquote, hbuild⟩
    exact .inr (.inr ⟨hbuild, .inr
      ⟨word, rest, args, rest', nextWord_eq_str_iff.mp hword, hargs, hne, hquote, hend⟩⟩)

/-! ### The verdict -/

theorem ReportsErrors.of_refused {t : Server S} {error : Ack} {name text : Text}
    (h : s.commandProcess p handle num line = .ok (.error, t))
    (hout : t.output = s.output ++ ackLine error num name text) :
    ReportsErrors p handle s num line where
  ok_only s' hs' := by
    rw [h] at hs'
    cases hs'
  malformed _ := ⟨_, h, rfl, error, name, text, hout⟩

theorem not_reportsErrors {t : Server S} (hbad : ¬ ∃ word args, WellFormed line word args)
    (h : s.commandProcess p handle num line = .ok (.ok, t) ∨
      s.commandProcess p handle num line = .error .noCurrentCommand) :
    ¬ ReportsErrors p handle s num line := by
  intro hreports
  obtain ⟨r, hr, hret, -⟩ := hreports.malformed hbad
  rcases h with h | h
  · rw [h] at hr
    cases hr
    cases hret
  · rw [h] at hr
    cases hr

/-- **On which lines errors are reported**: exactly on those that are heard. A line that stops at
the first word or at a quoted argument is answered by "OK", although nothing has been run. -/
theorem reportsErrors_iff (p : Platform) (handle : Handlers S) (s : Server S) (num : ℕ)
    (line : Text) : ReportsErrors p handle s num line ↔ Heard p line := by
  cases reading line with
  | empty hline =>
    subst hline
    have hbad : ¬ ∃ word args, WellFormed [] word args := not_wellFormed_of_badWord rfl
    have hprocess := commandProcess_empty p handle s num
    rw [heard_nil_iff]
    cases hbuild : p.assertions with
    | true =>
      rw [hbuild, if_pos rfl] at hprocess
      exact iff_of_false (not_reportsErrors (t := s) hbad (.inr hprocess)) nofun
    | false =>
      rw [hbuild, if_neg nofun] at hprocess
      exact iff_of_true (.of_refused hprocess rfl) rfl
  | badWord hcursor hword =>
    exact iff_of_false (not_reportsErrors (not_wellFormed_of_badWord hword)
        (.inl (commandProcess_badWord hcursor hword)))
      (not_heard_of_badWord hcursor hword)
  | @tooMany word rest rest' args hword hargs hlen h =>
    exact iff_of_true (.of_refused (commandProcess_tooMany hword hlen h) rfl)
      (.inr (.inl ⟨word, rest, args, rest', nextWord_eq_str_iff.mp hword, hargs, hlen.ge⟩))
  | @stop word rest rest' args hword hargs hlen hend h =>
    have hprocess := commandProcess_stop p handle s num hword hlen hend h
    by_cases hne : rest' = []
    · -- the whole line has been read
      subst hne
      have hline : WellFormed line word args := ⟨rest, nextWord_eq_str_iff.mp hword, hargs⟩
      refine iff_of_true ⟨fun s' hs' => ?_, fun hbad => absurd ⟨word, args, hline⟩ hbad⟩
        (.inl ⟨word, args, hline⟩)
      obtain hran | ⟨herror, -⟩ := invoke_yields _ (hprocess.symm.trans hs')
      · exact ⟨word, args, hline, hran⟩
      · cases herror
    · have hbad := (wellFormed_iff_of_stop hword hargs hend).not.mpr hne
      rw [if_neg hne] at hprocess
      rw [heard_iff_of_stop hword hargs hlen hend hne]
      by_cases hquote : rest'.head? = some '"'
      · rw [if_pos hquote] at hprocess
        exact iff_of_false (not_reportsErrors hbad (.inl hprocess)) fun h => h.1 hquote
      · rw [if_neg hquote] at hprocess
        cases hbuild : p.assertions with
        | true =>
          rw [hbuild, if_pos rfl] at hprocess
          exact iff_of_false (not_reportsErrors (t := s) hbad (.inr hprocess)) nofun
        | false =>
          rw [hbuild, if_neg nofun] at hprocess
          exact iff_of_true (.of_refused hprocess rfl) ⟨hquote, rfl⟩

theorem not_reportsErrors_unterminated :
    let p : Platform := ⟨false, "(null)".toList, [], false⟩
    let handle : Handlers Unit := fun _ s _ => .ok (.error, s)
    let s : Server Unit := ⟨(), 15, -1, none, 0, []⟩
    ((s.commandProcess p handle 0 "add \"song".toList).Succeeds fun r =>
      r.1 = .ok ∧ r.2.output = []) ∧
    ¬ ReportsErrors p handle s 0 "add \"song".toList := by
  intro p handle s
  have hok : (s.commandProcess p handle 0 "add \"song".toList).Succeeds fun r =>
      r.1 = .ok ∧ r.2.output = [] := by
    decide +kernel
  refine ⟨hok, fun h => ?_⟩
  obtain ⟨⟨_, t⟩, hr, rfl, -⟩ := hok
  obtain ⟨_, _, _, _, _, _, _, _, _, hrun, -⟩ := h.ok_only t hr
  cases hrun

end Server

end Mpd
