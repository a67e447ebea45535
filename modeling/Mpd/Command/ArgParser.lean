import Mpd.Command.Errors

/-!
# Command arguments

`protocol/argparser.c`: the arguments of commands as numbers. Each check either returns the value or
sends an error message.

What an argument says is the integer written in it, of any size (`writtenInt`, `writtenRange`). The
checks agree with it up to the limits of their types, and `checks_written_iff` says where they do
not: `check_uint32` has no limits, `check_unsigned` does not see a sign, and `check_range` has no
end behind the last number.
-/

namespace Mpd

/-- `UINT_MAX`. -/
def maxUint : ℕ := 4294967295

namespace Server

open Text (strtol strtoul readNumber)

variable {S : Type} (p : Platform) (s : Server S)

/-- The client is told what is wrong with the argument. -/
def refuseArgument {α : Type} (text : String) (arg : Text) :
    Except CommandFault (Option α × Server S) := do
  let s ← s.commandError p .arg (text.toList ++ arg)
  pure (none, s)

/-- `check_uint32`: the number is cut to 32 bits. -/
def checkUint32 (arg : Text) : Except CommandFault (Option ℕ × Server S) :=
  let (value, test) := strtoul arg
  if test = arg ∨ test ≠ [] then s.refuseArgument p "Integer expected: " arg
  else .ok (some (value % (maxUint + 1)), s)

/-- The part of `check_range` behind the colon. -/
def checkRangeEnd (arg : Text) (start : ℕ) (test : Text) :
    Except CommandFault (Option (ℕ × ℕ) × Server S) :=
  let (value, test₂) := strtol test
  if test₂ ≠ [] then s.refuseArgument p "Integer or range expected: " arg
  else
    let value : ℤ := if test = test₂ then maxUint else value
    if value < 0 then s.refuseArgument p "Number is negative: " arg
    else if maxUint < value then s.refuseArgument p "Number too large: " arg
    else .ok (some (start, value.toNat), s)

/-- `check_range`: `n`, `n:m` or `n:`. -/
def checkRange (arg : Text) : Except CommandFault (Option (ℕ × ℕ) × Server S) :=
  let (value, test) := strtol arg
  if test = arg ∨ test ≠ [] ∧ test.head? ≠ some ':' then
    s.refuseArgument p "Integer or range expected: " arg
  else if value = -1 ∧ test = [] then
    -- compatibility with older MPD versions: "-1" displays the whole list
    .ok (some (0, maxUint), s)
  else if value < 0 then s.refuseArgument p "Number is negative: " arg
  else if maxUint < value then s.refuseArgument p "Number too large: " arg
  else if test.head? = some ':' then s.checkRangeEnd p arg value.toNat test.tail
  else .ok (some (value.toNat, (value.toNat + 1) % (maxUint + 1)), s)

/-- `check_unsigned`. -/
def checkUnsigned (arg : Text) : Except CommandFault (Option ℕ × Server S) :=
  let (value, test) := strtoul arg
  if test = arg ∨ test ≠ [] then s.refuseArgument p "Integer expected: " arg
  else if maxUint < value then s.refuseArgument p "Number too large: " arg
  else .ok (some value, s)

/-! ### The checks change nothing but what the client sees -/

variable {p s}

theorem refuseArgument_yields {α : Type} {text : String} {arg : Text} :
    (s.refuseArgument p text arg : Except CommandFault (Option α × Server S)).Yields fun r =>
      r.2.world = s.world :=
  commandError_yields.bind fun _ ht => .ok ht

theorem checkUint32_yields {arg : Text} :
    (s.checkUint32 p arg).Yields fun r => r.2.world = s.world :=
  .branch refuseArgument_yields <| .ok rfl

theorem checkUnsigned_yields {arg : Text} :
    (s.checkUnsigned p arg).Yields fun r => r.2.world = s.world :=
  .branch refuseArgument_yields <| .branch refuseArgument_yields <| .ok rfl

/-- What `check_unsigned` accepts. -/
def AcceptsUnsigned (arg : Text) : Prop :=
  ¬ ((strtoul arg).2 = arg ∨ (strtoul arg).2 ≠ []) ∧ (strtoul arg).1 ≤ maxUint
  deriving Decidable

theorem checkUnsigned_of_accepts {arg : Text} (h : AcceptsUnsigned arg) :
    s.checkUnsigned p arg = .ok (some (strtoul arg).1, s) := by
  rw [checkUnsigned]
  dsimp only
  rw [if_neg h.1, if_neg h.2.not_gt]

theorem checkUnsigned_of_not_accepts {arg name : Text} (h : ¬ AcceptsUnsigned arg)
    (hname : s.currentCommand = some name) :
    (s.checkUnsigned p arg).Succeeds fun r => r.1 = none ∧ r.2.world = s.world := by
  have hrefuse : ∀ text : String, (s.refuseArgument p text arg :
      Except CommandFault (Option ℕ × Server S)).Succeeds fun r =>
        r.1 = none ∧ r.2.world = s.world := by
    intro text
    rw [refuseArgument, commandError_of_some hname]
    exact .ok ⟨rfl, rfl⟩
  rw [checkUnsigned]
  dsimp only
  split
  · exact hrefuse _
  · split
    · exact hrefuse _
    · exact absurd ⟨‹_›, not_lt.mp ‹_›⟩ h

theorem checkRangeEnd_yields {arg test : Text} {start : ℕ} :
    (s.checkRangeEnd p arg start test).Yields fun r => r.2.world = s.world :=
  .branch refuseArgument_yields <| .branch refuseArgument_yields <|
    .branch refuseArgument_yields <| .ok rfl

theorem checkRange_yields {arg : Text} : (s.checkRange p arg).Yields fun r => r.2.world = s.world :=
  .branch refuseArgument_yields <| .branch (.ok rfl) <|
    .branch refuseArgument_yields <| .branch refuseArgument_yields <|
    .branch checkRangeEnd_yields <| .ok rfl

/-! ### What is written in an argument -/

/-- A number with its sign. -/
def signed (negative : Bool) (n : ℕ) : ℤ :=
  if negative then -n else n

/-- The integer that is written in an argument. -/
def writtenInt (arg : Text) : Option ℤ :=
  match readNumber arg with
  | some (negative, n, []) => some (signed negative n)
  | _ => none

/-- The range that is written in an argument, `-1` being all. -/
def writtenRange (arg : Text) : Option (ℤ × ℤ) :=
  match readNumber arg with
  | some (negative, n, []) =>
    if signed negative n = -1 then some (0, maxUint)
    else some (signed negative n, signed negative n + 1)
  | some (negative, n, ':' :: test) =>
    if test = [] then some (signed negative n, maxUint)
    else (writtenInt test).map fun stop => (signed negative n, stop)
  | _ => none

/-- Only what is written is accepted, and only if it fits. -/
def ChecksInt (check : Except CommandFault (Option ℕ × Server S)) (arg : Text) : Prop :=
  check.Yields fun r => ∀ v ∈ r.1, writtenInt arg = some ↑v ∧ v ≤ maxUint

/-- The same for ranges. -/
def ChecksRange (check : Except CommandFault (Option (ℕ × ℕ) × Server S)) (arg : Text) : Prop :=
  check.Yields fun r => ∀ v ∈ r.1, writtenRange arg = some (↑v.1, ↑v.2) ∧
    v.1 ≤ maxUint ∧ v.2 ≤ maxUint

variable {arg rest : Text} {negative : Bool} {n : ℕ}

theorem refuseArgument_accepts {α : Type} {text : String} {P : α → Prop} :
    (s.refuseArgument p text arg : Except CommandFault (Option α × Server S)).Yields fun r =>
      ∀ v ∈ r.1, P v :=
  .after fun _ => .ok fun _ h => nomatch h

theorem ne_of_readNumber (h : readNumber arg = some (negative, n, [])) : [] ≠ arg := by
  rintro rfl
  cases h

theorem strtoul_signed (h : readNumber arg = some (negative, n, rest)) :
    ((strtoul arg).1 : ℤ) = (if 2 ^ 64 ≤ (signed negative n).natAbs then 2 ^ 64 - 1
      else signed negative n % 2 ^ 64) ∧ (strtoul arg).2 = rest := by
  rw [strtoul, h, signed, Text.ulongMax]
  refine ⟨?_, rfl⟩
  cases negative <;> simp only [if_true, Bool.false_eq_true, if_false] <;> split_ifs <;> omega

theorem strtol_signed (h : readNumber arg = some (negative, n, rest)) :
    (strtol arg).1 = max (-2 ^ 63) (min (2 ^ 63 - 1) (signed negative n)) ∧
      (strtol arg).2 = rest := by
  rw [strtol, h, signed, Text.longMax]
  refine ⟨?_, rfl⟩
  cases negative <;> simp only [if_true, Bool.false_eq_true, if_false] <;> omega

/-- What `strtoul` says of an argument. -/
theorem strtoul_cases (arg : Text) :
    (((strtoul arg).2 = arg ∨ (strtoul arg).2 ≠ []) ∧ writtenInt arg = none) ∨
    ∃ z, ¬ ((strtoul arg).2 = arg ∨ (strtoul arg).2 ≠ []) ∧ writtenInt arg = some z ∧
      ((strtoul arg).1 : ℤ) = if 2 ^ 64 ≤ z.natAbs then 2 ^ 64 - 1 else z % 2 ^ 64 := by
  rw [writtenInt]
  cases hread : readNumber arg with
  | none => exact .inl ⟨.inl (by rw [strtoul, hread]), rfl⟩
  | some r =>
    obtain ⟨negative, n, rest⟩ := r
    obtain ⟨hvalue, htest⟩ := strtoul_signed hread
    rw [htest]
    cases rest with
    | cons ch rest => exact .inl ⟨.inr (List.cons_ne_nil _ _), rfl⟩
    | nil => exact .inr ⟨_, not_or.mpr ⟨ne_of_readNumber hread, not_not.mpr rfl⟩, rfl, hvalue⟩

theorem checkUint32_written_iff :
    ChecksInt (s.checkUint32 p arg) arg ↔ ∀ z ∈ writtenInt arg, 0 ≤ z ∧ z ≤ maxUint := by
  rw [ChecksInt, checkUint32]
  dsimp only
  obtain ⟨hrefused, hnone⟩ | ⟨z, haccepted, hwritten, hvalue⟩ := strtoul_cases arg
  · rw [if_pos hrefused, hnone]
    exact iff_of_true refuseArgument_accepts fun z h => nomatch h
  · rw [if_neg haccepted, Except.yields_ok, hwritten]
    simp only [Option.mem_some_iff, forall_eq', Option.some.injEq, maxUint]
    split_ifs at hvalue <;> omega

theorem checkUnsigned_written_iff : ChecksInt (s.checkUnsigned p arg) arg ↔
      ∀ z ∈ writtenInt arg, ¬ (-2 ^ 64 < z ∧ z < -2 ^ 64 + 2 ^ 32) := by
  rw [ChecksInt, checkUnsigned]
  dsimp only
  obtain ⟨hrefused, hnone⟩ | ⟨z, haccepted, hwritten, hvalue⟩ := strtoul_cases arg
  · rw [if_pos hrefused, hnone]
    exact iff_of_true refuseArgument_accepts fun z h => nomatch h
  rw [if_neg haccepted, hwritten]
  simp only [Option.mem_some_iff, forall_eq']
  by_cases hlarge : maxUint < (strtoul arg).1
  · rw [if_pos hlarge]
    refine iff_of_true refuseArgument_accepts ?_
    rw [maxUint] at hlarge
    split_ifs at hvalue <;> omega
  · rw [if_neg hlarge, Except.yields_ok]
    rw [maxUint] at hlarge
    simp only [Option.mem_some_iff, forall_eq', Option.some.injEq, maxUint]
    split_ifs at hvalue <;> omega

theorem checkRangeEnd_written {start : ℕ} {test : Text} (hstart : start ≤ maxUint)
    (hread : readNumber arg = some (negative, n, ':' :: test))
    (hsigned : signed negative n = start) :
    ChecksRange (s.checkRangeEnd p arg start test) arg := by
  have hwritten : writtenRange arg = if test = [] then some (↑start, ↑maxUint)
      else (writtenInt test).map fun stop => (↑start, stop) := by
    simp only [writtenRange, hread, hsigned]
  rw [ChecksRange, checkRangeEnd, hwritten]
  dsimp only
  refine .ite (fun _ => refuseArgument_accepts) fun hend => ?_
  rw [not_not] at hend
  refine .ite (fun _ => refuseArgument_accepts) fun hneg => ?_
  refine .ite (fun _ => refuseArgument_accepts) fun hlarge => .ok ?_
  rintro v ⟨⟩
  rw [hend] at hneg hlarge ⊢
  by_cases hnil : test = []
  · rw [if_pos hnil, if_pos hnil]
    exact ⟨rfl, hstart, le_rfl⟩
  · rw [if_neg hnil] at hneg hlarge ⊢
    rw [if_neg hnil]
    cases hstop : readNumber test with
    | none =>
      rw [strtol, hstop] at hend
      exact absurd hend hnil
    | some r =>
      obtain ⟨negative', n', rest⟩ := r
      obtain ⟨hvalue, htest⟩ := strtol_signed hstop
      obtain rfl : rest = [] := htest.symm.trans hend
      rw [writtenInt, hstop, Option.map_some, Option.some.injEq, Prod.mk.injEq]
      rw [maxUint] at hlarge
      exact ⟨⟨rfl, by omega⟩, hstart, by rw [maxUint]; omega⟩

theorem checkRange_written_iff :
    ChecksRange (s.checkRange p arg) arg ↔ writtenInt arg ≠ some ↑maxUint := by
  have hrefused {text} : ChecksRange (s.refuseArgument p text arg) arg := refuseArgument_accepts
  rw [checkRange]
  dsimp only
  cases hread : readNumber arg with
  | none =>
    rw [if_pos (.inl (by rw [strtol, hread])), writtenInt, hread]
    exact iff_of_true hrefused (by simp)
  | some r =>
    obtain ⟨negative, n, rest⟩ := r
    obtain ⟨hvalue, htest⟩ := strtol_signed hread
    rw [htest, hvalue]
    cases rest with
    | nil =>
      have hint : writtenInt arg = some (signed negative n) := by rw [writtenInt, hread]
      have hwritten : writtenRange arg = if signed negative n = -1 then some (0, ↑maxUint)
          else some (signed negative n, signed negative n + 1) := by rw [writtenRange, hread]
      generalize signed negative n = z at hint hwritten ⊢
      have hclamp : max (-2 ^ 63) (min (2 ^ 63 - 1) z) < 0 ↔ z < 0 := by omega
      have hlarger : (maxUint : ℤ) < max (-2 ^ 63) (min (2 ^ 63 - 1) z) ↔ maxUint < z := by
        rw [maxUint]; omega
      rw [if_neg (by simpa using ne_of_readNumber hread)]
      simp only [hclamp, hlarger, hint, List.head?_nil, reduceCtorEq, if_false, ne_eq,
        Option.some.injEq, and_true]
      by_cases hall : z = -1
      · rw [if_pos (by omega)]
        rw [if_pos hall] at hwritten
        refine iff_of_true (.ok ?_) (by rw [maxUint]; omega)
        rintro v ⟨⟩
        exact ⟨hwritten, Nat.zero_le _, le_rfl⟩
      rw [if_neg hall] at hwritten
      rw [if_neg (by omega)]
      by_cases hneg : z < 0
      · rw [if_pos hneg]
        exact iff_of_true hrefused (by rw [maxUint]; omega)
      by_cases hlarge : maxUint < z
      · rw [if_neg hneg, if_pos hlarge]
        exact iff_of_true hrefused hlarge.ne'
      rw [if_neg hneg, if_neg hlarge, ChecksRange, Except.yields_ok, hwritten]
      rw [maxUint] at hlarge
      simp only [Option.mem_some_iff, forall_eq', Option.some.injEq, Prod.mk.injEq, maxUint]
      omega
    | cons ch rest =>
      refine iff_of_true ?_ (by simp [writtenInt, hread])
      refine .ite (fun _ => hrefused) fun hcolon => .ite (fun hend => absurd hend.2 (by simp))
        fun _ => .ite (fun _ => hrefused) fun hneg => .ite (fun _ => hrefused) fun hlarge => ?_
      obtain rfl : ch = ':' := by simpa using (not_or.mp hcolon).2
      rw [maxUint] at hlarge
      exact checkRangeEnd_written (by rw [maxUint]; omega) hread (by omega)

/-- **Where the checks agree with what is written.** -/
theorem checks_written_iff (p : Platform) (s : Server S) (arg : Text) :
    (ChecksRange (s.checkRange p arg) arg ↔ writtenInt arg ≠ some ↑maxUint) ∧
    (ChecksInt (s.checkUnsigned p arg) arg ↔
      ∀ z ∈ writtenInt arg, ¬ (-2 ^ 64 < z ∧ z < -2 ^ 64 + 2 ^ 32)) ∧
    (ChecksInt (s.checkUint32 p arg) arg ↔ ∀ z ∈ writtenInt arg, 0 ≤ z ∧ z ≤ maxUint) :=
  ⟨checkRange_written_iff, checkUnsigned_written_iff, checkUint32_written_iff⟩

theorem accepted_not_written :
    let p : Platform := ⟨true, "(null)".toList, [], false⟩
    let s : Server Unit := ⟨(), 15, -1, some "move".toList, 0, []⟩
    let last := "4294967295".toList
    let negative := "-18446744073709551615".toList
    (s.checkRange p last = .ok (some (4294967295, 0), s) ∧
      ¬ ChecksRange (s.checkRange p last) last) ∧
    (s.checkUnsigned p negative = .ok (some 1, s) ∧
      ¬ ChecksInt (s.checkUnsigned p negative) negative) ∧
    (s.checkUint32 p "-1".toList = .ok (some 4294967295, s) ∧
      ¬ ChecksInt (s.checkUint32 p "-1".toList) "-1".toList) ∧
    s.checkUint32 p "4294967296".toList = .ok (some 0, s) ∧
      ¬ ChecksInt (s.checkUint32 p "4294967296".toList) "4294967296".toList := by
  simp only [ChecksRange, ChecksInt]
  exact ⟨⟨rfl, by decide⟩, ⟨rfl, by decide⟩, ⟨rfl, by decide⟩, rfl, by decide⟩

end Server

end Mpd
