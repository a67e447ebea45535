import Mathlib.Algebra.Ring.Nat
import Mathlib.Algebra.Order.BigOperators.Group.List
import Mpd.Client.Process

/-!
# The protocol of command lists

`Phase` is the protocol as a client sees it: where a sequence of lines stands, computed from the
lines alone, and which answer the next line gets. `Session.processLine_answers` shows that a
session keeps to it, on every connection and whatever the commands return.

One thing the client cannot see: `cmd_list_size`, the memory of the list being collected, is never
reset. It counts the lines of all lists sent on the connection (`Session.Tracks`), so that a list
is refused for the size of the lists before it (`Session.refusesFairly_iff`).
-/

namespace Mpd

open List

namespace Client

/-- Whether the client is within a command list. -/
inductive Phase
  | outside
  | inside (listOk : Bool) (collected : List Text)
  deriving DecidableEq, Repr

namespace Phase

def next (p : Phase) (line : Text) : Phase :=
  if line = noidle then p
  else
    match p with
    | .outside =>
      if line = listModeBegin then .inside false []
      else if line = listOkModeBegin then .inside true []
      else .outside
    | .inside listOk collected =>
      if line = listModeEnd then .outside else .inside listOk (collected ++ [line])

def after (lines : List Text) : Phase :=
  lines.foldl next .outside

def collected : Phase → List Text
  | .outside => []
  | .inside _ collected => collected

def completes (p : Phase) (line : Text) : List Text :=
  if line = listModeEnd then p.collected else []

def completedFrom : Phase → List Text → List Text
  | _, [] => []
  | p, line :: lines => p.completes line ++ completedFrom (p.next line) lines

def completed (lines : List Text) : List Text :=
  completedFrom .outside lines

def listed (lines : List Text) : List Text :=
  completed lines ++ (after lines).collected

@[simp]
theorem after_concat (lines : List Text) (line : Text) :
    after (lines ++ [line]) = (after lines).next line := by
  simp [after]

theorem completedFrom_concat (p : Phase) (lines : List Text) (line : Text) :
    completedFrom p (lines ++ [line]) =
      completedFrom p lines ++ (lines.foldl next p).completes line := by
  induction lines generalizing p with
  | nil => simp [completedFrom]
  | cons l lines ih => simp [completedFrom, ih]

theorem completed_concat (lines : List Text) (line : Text) :
    completed (lines ++ [line]) = completed lines ++ (after lines).completes line :=
  completedFrom_concat _ _ _

/-- The line is added to the command list. -/
def Takes (p : Phase) (line : Text) : Prop :=
  line ≠ noidle ∧ line ≠ listModeEnd ∧ p ≠ .outside

theorem next_noidle (p : Phase) : p.next noidle = p :=
  if_pos rfl

theorem next_end {listOk : Bool} {collected : List Text} :
    (inside listOk collected).next listModeEnd = .outside := by
  rw [next, if_neg (by decide)]
  exact if_pos rfl

theorem listed_of_takes {lines : List Text} {line : Text} (h : (after lines).Takes line) :
    listed (lines ++ [line]) = listed lines ++ [line] := by
  obtain ⟨hnoidle, hend, hp⟩ := h
  rw [listed, listed, completed_concat, after_concat, completes, if_neg hend, append_nil,
    append_assoc]
  cases h : after lines with
  | outside => exact absurd h hp
  | inside listOk collected =>
    rw [next, if_neg hnoidle]
    simp only [if_neg hend, Phase.collected]

theorem listed_of_not_takes {lines : List Text} {line : Text} (h : ¬ (after lines).Takes line) :
    listed (lines ++ [line]) = listed lines := by
  rw [listed, listed, completed_concat, after_concat]
  cases hp : after lines with
  | outside =>
    have hnext : (next .outside line).collected = [] := by
      rw [next]
      split
      · rfl
      · split
        · rfl
        · split <;> rfl
    rw [hnext, completes]
    split <;> simp [collected]
  | inside listOk cs =>
    by_cases hnoidle : line = noidle
    · subst hnoidle
      rw [next_noidle, completes, if_neg (by decide), append_nil]
    · obtain rfl : line = listModeEnd := by
        by_contra hend
        exact h (by rw [hp]; exact ⟨hnoidle, hend, by simp⟩)
      rw [next_end, completes, if_pos rfl]
      simp [collected]

end Phase

/-- Commands have been executed **up to the first failure** when all results but the last are OK,
and the last is not unless all commands have been executed. -/
structure UpToFailure (commands : List Text) (rets : List CommandReturn) : Prop where
  length_le : rets.length ≤ commands.length
  ok_of_not_last : ∀ ret ∈ rets.dropLast, ret = .ok
  failed_of_lt : rets.length < commands.length → ∃ ret ∈ rets.getLast?, ret ≠ .ok

def listEvents (listOk : Bool) : ℕ → List Text → List CommandReturn → List Event
  | num, command :: commands, ret :: rets =>
    .execute num command ret :: (if ret = .ok ∧ listOk then [.puts listOkText] else []) ++
        listEvents listOk (num + 1) commands rets
  | _, _, _ => []

def ending (ret : CommandReturn) (success : Prop) [Decidable success] : List Event :=
  if ret = .close then [] else (if success then [.puts okText] else []) ++ [.writeOutput]

/-- **The answer to a line**: what is returned to the caller and what the session does. Outside a
list, a line that does not begin one is executed at once, as number `0`. The end of a list executes
its lines in order, numbered from `0`, up to the first failure. Nothing else is answered. -/
def Phase.Answers (p : Phase) (line : Text) (ret : CommandReturn) (events : List Event) : Prop :=
  match p with
  | .outside =>
    if line = listModeBegin ∨ line = listOkModeBegin then ret = .ok ∧ events = []
    else events = .execute 0 line ret :: ending ret (ret = .ok)
  | .inside listOk collected =>
    if line = listModeEnd then
      ∃ rets, UpToFailure collected rets ∧ ret = rets.getLast?.getD .ok ∧
        events = listEvents listOk 0 collected rets ++
          ending ret (rets = replicate collected.length .ok)
    else ret = .ok ∧ events = []

def linesSize (lines : List Text) : ℕ :=
  (lines.map fun line => line.length + 1).sum

@[simp]
theorem linesSize_append (lines lines' : List Text) :
    linesSize (lines ++ lines') = linesSize lines + linesSize lines' := by
  simp [linesSize]

@[simp]
theorem linesSize_singleton (line : Text) : linesSize [line] = line.length + 1 := by
  simp [linesSize]

theorem UpToFailure.nil : UpToFailure [] [] :=
  ⟨le_rfl, fun _ h => (nomatch h), fun h => absurd h (lt_irrefl 0)⟩

theorem UpToFailure.failed {command : Text} {commands : List Text} {ret : CommandReturn}
    (h : ret ≠ .ok) : UpToFailure (command :: commands) [ret] :=
  ⟨by simp, fun _ h => (nomatch h), fun _ => ⟨ret, rfl, h⟩⟩

theorem UpToFailure.cons {command : Text} {commands : List Text} {rets : List CommandReturn}
    (h : UpToFailure commands rets) :
    UpToFailure (command :: commands) (.ok :: rets) := by
  refine ⟨Nat.succ_le_succ h.length_le, ?_, fun hlt => ?_⟩
  · intro ret hret
    cases rets with
    | nil => cases hret
    | cons r rets =>
      rw [dropLast_cons_cons, mem_cons] at hret
      exact hret.elim id (h.ok_of_not_last ret)
  · obtain ⟨ret, hret, hfail⟩ := h.failed_of_lt (Nat.lt_of_succ_lt_succ hlt)
    refine ⟨ret, ?_, hfail⟩
    cases rets with
    | nil => cases hret
    | cons r rets => rwa [getLast?_cons_cons]

theorem UpToFailure.last_ok_iff {commands : List Text} {rets : List CommandReturn}
    (h : UpToFailure commands rets) :
    rets.getLast?.getD .ok = .ok ↔ rets = replicate commands.length .ok := by
  constructor
  · intro hlast
    have hlen : rets.length = commands.length := by
      refine le_antisymm h.length_le (not_lt.mp fun hlt => ?_)
      obtain ⟨ret, hret, hfail⟩ := h.failed_of_lt hlt
      rw [hret] at hlast
      exact hfail hlast
    refine eq_replicate_iff.mpr ⟨hlen, fun ret hret => ?_⟩
    obtain rfl | ⟨rets, last, rfl⟩ := rets.eq_nil_or_concat
    · cases hret
    · simp only [concat_eq_append, getLast?_append, getLast?_singleton,
        Option.some_or, Option.getD_some] at hlast
      rw [concat_eq_append, mem_append, mem_singleton] at hret
      refine hret.elim (fun hmem => h.ok_of_not_last ret ?_) fun heq => heq.trans hlast
      rwa [concat_eq_append, dropLast_concat]
  · rintro rfl
    cases commands.length with
    | zero => rfl
    | succ n => rw [getLast?_replicate]; simp

namespace Session

variable {w : World} {s s' : Session} {line : Text}

/-! ### Executing a list -/

/-- The fields that executing commands leaves alone. -/
structure SameList (s s' : Session) : Prop where
  maxCommandListSize : s'.maxCommandListSize = s.maxCommandListSize
  cmdList : s'.cmdList = s.cmdList
  cmdListOK : s'.cmdListOK = s.cmdListOK
  cmdListSize : s'.cmdListSize = s.cmdListSize

theorem SameList.trans {s'' : Session} (h : SameList s s') (h' : SameList s' s'') :
    SameList s s'' :=
  ⟨h'.1.trans h.1, h'.2.trans h.2, h'.3.trans h.3, h'.4.trans h.4⟩

theorem sameList_record (s : Session) (e : Event) : SameList s (s.record e) :=
  ⟨rfl, rfl, rfl, rfl⟩

theorem sameList_commandProcess (w : World) (s : Session) (num : ℕ) (line : Text) :
    SameList s (s.commandProcess w num line).2 :=
  ⟨rfl, rfl, rfl, rfl⟩

theorem sameList_respond (s : Session) (ret : CommandReturn) : SameList s (s.respond ret) := by
  rw [respond]
  split
  · exact (sameList_record _ _).trans (sameList_record _ _)
  · exact sameList_record _ _

theorem log_respond (s : Session) (ret : CommandReturn) : (s.respond ret).log =
      s.log ++ ((if ret = .ok then [.puts okText] else []) ++ [.writeOutput]) := by
  rw [respond]
  split <;> simp [record]

theorem sameList_processCommandListFrom (listOk : Bool) (commands : List Text) (num : ℕ)
    (s : Session) : SameList s (processCommandListFrom w listOk s num commands).2 := by
  induction commands generalizing s num with
  | nil => exact ⟨rfl, rfl, rfl, rfl⟩
  | cons command commands ih =>
    rw [processCommandListFrom]
    refine SameList.trans (sameList_commandProcess w s num command) ?_
    dsimp only
    split
    · exact ⟨rfl, rfl, rfl, rfl⟩
    · split
      · exact (sameList_record _ _).trans (ih _ _)
      · exact ih _ _

/-- **The loop over a list** executes its commands up to the first failure. -/
theorem processCommandListFrom_spec (hlive : ∀ log, w.expired log = false) (listOk : Bool)
    (commands : List Text) (num : ℕ) (s : Session) :
    ∃ rets, UpToFailure commands rets ∧
      (processCommandListFrom w listOk s num commands).1 = rets.getLast?.getD .ok ∧
      (processCommandListFrom w listOk s num commands).2.log =
        s.log ++ listEvents listOk num commands rets := by
  induction commands generalizing s num with
  | nil => exact ⟨[], .nil, rfl, (append_nil _).symm⟩
  | cons command commands ih =>
    rw [processCommandListFrom]
    dsimp only
    generalize hret : (s.commandProcess w num command).1 = ret
    have hlog : (s.commandProcess w num command).2.log = s.log ++ [.execute num command ret] := by
      rw [← hret]
      rfl
    generalize (s.commandProcess w num command).2 = s₁ at hlog
    simp only [hlive, Bool.false_eq_true, or_false]
    by_cases hok : ret = .ok
    · subst hok
      rw [if_neg (not_not.mpr rfl)]
      obtain ⟨rets, hrets, hlast, hevents⟩ :=
        ih (num + 1) (if listOk then s₁.record (.puts listOkText) else s₁)
      refine ⟨.ok :: rets, hrets.cons, ?_, ?_⟩
      · rw [hlast]
        cases rets with
        | nil => rfl
        | cons r rets => rw [getLast?_cons_cons]
      · rw [hevents, listEvents]
        cases listOk <;> simp [record, hlog]
    · rw [if_pos hok]
      refine ⟨[ret], .failed hok, rfl, ?_⟩
      simp [hlog, listEvents, hok]

/-! ### Recorded results -/

/-- The results in a log are **genuine** when each is what `command_process` returned at that
point. -/
def Genuine (w : World) (log : List Event) : Prop :=
  ∀ earlier num line ret, earlier ++ [.execute num line ret] <+: log →
    ret = (w.process earlier num line).1

theorem genuine_nil : Genuine w [] := by
  intro earlier num line ret h
  simpa using prefix_nil.mp h

theorem Genuine.concat {log : List Event} {e : Event} (h : Genuine w log)
    (he : ∀ num line ret, e = .execute num line ret → ret = (w.process log num line).1) :
    Genuine w (log ++ [e]) := by
  intro earlier num line ret hprefix
  rw [prefix_concat_iff] at hprefix
  obtain heq | hprefix := hprefix
  · obtain ⟨rfl, hlast⟩ := append_inj' heq rfl
    exact he num line ret (singleton_inj.mp hlast).symm
  · exact h earlier num line ret hprefix

theorem Genuine.append {log events : List Event} (h : Genuine w log)
    (hevents : ∀ e ∈ events, ∀ num line ret, e ≠ .execute num line ret) :
    Genuine w (log ++ events) := by
  induction events using reverseRecOn with
  | nil => rwa [append_nil]
  | append_singleton events e ih =>
    rw [← append_assoc]
    refine (ih fun e he => hevents e (mem_append_left _ he)).concat fun num line ret he => ?_
    exact absurd he (hevents e (mem_append_right _ (mem_singleton_self e)) num line ret)

theorem Genuine.commandProcess (h : Genuine w s.log) (num : ℕ) (line : Text) :
    Genuine w (s.commandProcess w num line).2.log := by
  refine h.concat fun num' line' ret' he => ?_
  cases he
  rfl

theorem Genuine.respond (h : Genuine w s.log) (ret : CommandReturn) :
    Genuine w (s.respond ret).log := by
  rw [log_respond]
  refine h.append ?_
  split <;> simp

theorem Genuine.processCommandListFrom (listOk : Bool) (commands : List Text) (num : ℕ)
    (h : Genuine w s.log) :
    Genuine w (Session.processCommandListFrom w listOk s num commands).2.log := by
  induction commands generalizing s num with
  | nil => exact h
  | cons command commands ih =>
    rw [Session.processCommandListFrom]
    have h' := h.commandProcess num command
    dsimp only
    split
    · exact h'
    · split
      · exact ih _ (h'.append (by simp))
      · exact ih _ h'

/-! ### Whole connections -/

/-- The list fields **stand for** a phase. -/
def InPhase (s : Session) : Phase → Prop
  | .outside => s.cmdListOK = -1 ∧ s.cmdList = []
  | .inside listOk collected =>
    s.cmdListOK = (if listOk then 1 else 0) ∧ s.cmdList = collected.reverse

theorem InPhase.congr {p : Phase} (h : SameList s s') (hp : s.InPhase p) : s'.InPhase p := by
  cases p with
  | outside => exact ⟨h.cmdListOK.trans hp.1, h.cmdList.trans hp.2⟩
  | inside listOk collected => exact ⟨h.cmdListOK.trans hp.1, h.cmdList.trans hp.2⟩

/-- What holds of an open connection after some lines: its list fields follow them, and the size
counts the lines of *all* lists. -/
structure Tracks (w : World) (max : ℕ) (lines : List Text) (s : Session) : Prop where
  phase : s.InPhase (.after lines)
  size : s.cmdListSize = linesSize (Phase.listed lines)
  max_eq : s.maxCommandListSize = max
  genuine : Genuine w s.log
  accepted : .listTooLarge ∉ s.log

theorem tracks_init (w : World) (max : ℕ) : Tracks w max [] (init max) :=
  ⟨⟨rfl, rfl⟩, rfl, rfl, genuine_nil, not_mem_nil⟩

theorem endList_eq {listOk : Bool} {collected : List Text}
    (h : s.InPhase (.inside listOk collected)) :
    s.endList w =
      let r := processCommandListFrom w listOk { s with cmdList := collected } 0 collected
      if r.1 = .close ∨ w.expired r.2.log then (.close, r.2)
      else (r.1, (r.2.respond r.1).leaveList) := by
  obtain ⟨hok, hlist⟩ := h
  have hflag : decide (s.cmdListOK ≠ 0) = listOk := by
    rw [hok]
    cases listOk <;> rfl
  simp only [endList, processCommandList, hlist, reverse_reverse, hflag]

/-- **What a line can do**, by the phase it arrives in. -/
inductive Processed (w : World) (s : Session) (line : Text) :
    Phase → CommandReturn × Session → Prop
  /-- "noidle" ends idling, and otherwise does nothing -/
  | noidle {p : Phase} {s' : Session} {events : List Event} (hline : line = Client.noidle)
      (hsame : SameList s s') (hevents : events = [] ∨ events = [.puts okText, .writeOutput])
      (hlog : s'.log = s.log ++ events) : Processed w s line p (.ok, s')
  /-- anything else while idling closes the connection -/
  | idling {p : Phase} (hline : line ≠ Client.noidle) (hidle : s.idleWaiting = true) :
      Processed w s line p (.close, s)
  | collect {listOk : Bool} {collected : List Text} (hline : line ≠ Client.noidle)
      (hidle : s.idleWaiting = false) (hend : line ≠ listModeEnd) :
      Processed w s line (.inside listOk collected) (s.collect line)
  | endList {listOk : Bool} {collected : List Text} (hline : line = listModeEnd) :
      Processed w s line (.inside listOk collected) (s.endList w)
  | beginList (listOk : Bool) (hline : line = if listOk then listOkModeBegin else listModeBegin) :
      Processed w s line .outside (.ok, { s with cmdListOK := if listOk then 1 else 0 })
  | execute (hline : line ≠ Client.noidle) (hbegin : line ≠ listModeBegin)
      (hbegin' : line ≠ listOkModeBegin) : Processed w s line .outside (s.executeLine w line)

theorem processed {p : Phase} (h : s.InPhase p) (w : World) (line : Text) :
    Processed w s line p (s.processLine w line) := by
  rw [processLine]
  split
  · next hline =>
    split
    · exact .noidle hline ⟨rfl, rfl, rfl, rfl⟩ (.inr rfl) (by simp [record])
    · exact .noidle hline ⟨rfl, rfl, rfl, rfl⟩ (.inl rfl) (append_nil _).symm
  next hline =>
  split
  · next hidle => exact .idling hline hidle
  next hidle =>
  rw [Bool.not_eq_true] at hidle
  cases p with
  | inside listOk collected =>
    rw [if_pos (by rw [h.1]; cases listOk <;> decide)]
    split
    · next hend => exact .endList hend
    · next hend => exact .collect hline hidle hend
  | outside =>
    rw [if_neg (by rw [h.1]; decide)]
    split
    · next hbegin => exact .beginList false hbegin
    split
    · next hbegin => exact .beginList true hbegin
    · next hbegin hbegin' => exact .execute hline hbegin hbegin'

theorem collect_of_le (h : s.cmdListSize + (line.length + 1) ≤ s.maxCommandListSize) :
    s.collect line =
      (.ok, { s with
        cmdListSize := s.cmdListSize + (line.length + 1)
        cmdList := line :: s.cmdList }) :=
  if_neg (not_lt.mpr h)

theorem collect_of_lt (h : s.maxCommandListSize < s.cmdListSize + (line.length + 1)) :
    s.collect line =
      (.close, { s with cmdListSize := s.cmdListSize + (line.length + 1) }.record .listTooLarge) :=
  if_pos h

theorem listTooLarge_notMem_respond {ret : CommandReturn} (h : .listTooLarge ∉ s.log) :
    .listTooLarge ∉ (s.respond ret).log := by
  rw [log_respond]
  split <;> simp [h]

theorem listTooLarge_notMem_processCommandListFrom (listOk : Bool) (commands : List Text) (num : ℕ)
    (h : .listTooLarge ∉ s.log) :
    .listTooLarge ∉ (processCommandListFrom w listOk s num commands).2.log := by
  induction commands generalizing s num with
  | nil => exact h
  | cons command commands ih =>
    rw [processCommandListFrom]
    have h' : .listTooLarge ∉ (s.commandProcess w num command).2.log := by
      simp [commandProcess, record, h]
    dsimp only
    split
    · exact h'
    · split
      · exact ih _ (by simp [record, h'])
      · exact ih _ h'

theorem genuine_processLine {p : Phase} (h : s.InPhase p) (hgenuine : Genuine w s.log)
    (line : Text) : Genuine w (s.processLine w line).2.log := by
  have hcases := processed h w line
  generalize s.processLine w line = r at hcases ⊢
  cases hcases with
  | noidle _ _ hevents hlog =>
    rw [hlog]
    refine hgenuine.append ?_
    obtain rfl | rfl := hevents <;> simp
  | idling => exact hgenuine
  | collect =>
    rw [collect]
    split
    · exact hgenuine.append (by simp)
    · exact hgenuine
  | @endList listOk collected =>
    rw [endList_eq h]
    have hlist := Genuine.processCommandListFrom (s := { s with cmdList := collected }) listOk
      collected 0 hgenuine
    dsimp only
    split
    · exact hlist
    · exact hlist.respond _
  | beginList => exact hgenuine
  | execute =>
    rw [executeLine]
    have hexecute := hgenuine.commandProcess 0 line
    dsimp only
    split
    · exact hexecute
    · exact hexecute.respond _

/-- **Step lemma.** A line that does not close the connection is tracked. -/
theorem tracks_processLine {max : ℕ} {lines : List Text} (h : Tracks w max lines s)
    (hopen : (s.processLine w line).1 ≠ .close) :
    Tracks w max (lines ++ [line]) (s.processLine w line).2 := by
  have hgenuine := genuine_processLine h.phase h.genuine line
  obtain ⟨hphase, hsize, hmax, -, haccepted⟩ := h
  have hcases := processed hphase w line
  generalize hp : Phase.after lines = p at hphase hcases
  generalize s.processLine w line = r at hopen hcases hgenuine ⊢
  have hnext : Phase.after (lines ++ [line]) = p.next line := by rw [Phase.after_concat, hp]
  cases hcases with
  | noidle hline hsame hevents hlog =>
    subst hline
    refine ⟨?_, ?_, hsame.maxCommandListSize.trans hmax, hgenuine, ?_⟩
    · rw [hnext, Phase.next_noidle]
      exact hphase.congr hsame
    · rw [Phase.listed_of_not_takes (fun h => h.1 rfl), ← hsize]
      exact hsame.cmdListSize
    · rw [hlog]
      obtain rfl | rfl := hevents <;> simp [haccepted]
  | idling => exact absurd rfl hopen
  | collect hline hidle hend =>
    by_cases hfits : s.cmdListSize + (line.length + 1) ≤ s.maxCommandListSize
    · rw [collect_of_le hfits] at hgenuine ⊢
      refine ⟨?_, ?_, hmax, hgenuine, haccepted⟩
      · rw [hnext, Phase.next, if_neg hline]
        simp only [if_neg hend]
        refine ⟨hphase.1, ?_⟩
        rw [hphase.2, reverse_append, reverse_singleton, singleton_append]
      · rw [Phase.listed_of_takes (by rw [hp]; exact ⟨hline, hend, by simp⟩), linesSize_append,
          linesSize_singleton, ← hsize]
    · rw [collect_of_lt (not_le.mp hfits)] at hopen
      exact absurd rfl hopen
  | @endList listOk collected hline =>
    subst hline
    rw [endList_eq hphase] at hopen hgenuine ⊢
    dsimp only at hopen hgenuine ⊢
    split at hopen
    · exact absurd rfl hopen
    next hgo =>
    rw [if_neg hgo] at hgenuine ⊢
    generalize hr : processCommandListFrom w listOk { s with cmdList := collected } 0 collected = r
      at hgenuine
    have hsame : SameList { s with cmdList := collected } (r.2.respond r.1) := by
      rw [← hr]
      exact (sameList_processCommandListFrom _ _ _ _).trans (sameList_respond _ _)
    refine ⟨?_, ?_, hsame.maxCommandListSize.trans hmax, hgenuine, ?_⟩
    · rw [hnext, Phase.next_end]
      exact ⟨rfl, rfl⟩
    · rw [Phase.listed_of_not_takes (fun h => h.2.1 rfl), ← hsize]
      exact hsame.cmdListSize
    · rw [← hr]
      exact listTooLarge_notMem_respond (listTooLarge_notMem_processCommandListFrom
        _ _ _ haccepted)
  | beginList listOk hline =>
    refine ⟨?_, ?_, hmax, hgenuine, haccepted⟩
    · rw [hnext, hline, Phase.next]
      cases listOk
      · exact ⟨rfl, hphase.2⟩
      · exact ⟨rfl, hphase.2⟩
    · rw [Phase.listed_of_not_takes (fun h => h.2.2 hp)]
      exact hsize
  | execute hline hbegin hbegin' =>
    rw [executeLine] at hopen hgenuine ⊢
    dsimp only at hopen hgenuine ⊢
    split at hopen
    · exact absurd rfl hopen
    next hgo =>
    rw [if_neg hgo] at hgenuine ⊢
    have hsame := (sameList_commandProcess w s 0 line).trans
      (sameList_respond _ (s.commandProcess w 0 line).1)
    refine ⟨?_, ?_, hsame.maxCommandListSize.trans hmax, hgenuine, listTooLarge_notMem_respond ?_⟩
    · rw [hnext, Phase.next, if_neg hline]
      simp only [if_neg hbegin, if_neg hbegin']
      exact hphase.congr hsame
    · rw [Phase.listed_of_not_takes (fun h => h.2.2 hp), ← hsize]
      exact hsame.cmdListSize
    · simp [commandProcess, record, haccepted]

/-- **Run lemma.** Every open connection is tracked. -/
theorem tracks_of_reaches {max : ℕ} (h : Reaches (Step.run w) (fun _ _ => True) (init max) s) :
    Tracks w max s.received s := by
  refine h.invariant (I := fun s => Tracks w max s.received s) (tracks_init w max)
    fun step s _ htracks s' hrun => ?_
  cases step with
  | receive line =>
    have hopen : ∀ {ret s₁}, s.processLine w line = (ret, s₁) → ret ≠ .close →
        Tracks w max (s.received ++ [line]) s₁ := by
      intro ret s₁ heq hret
      have hopen : (s.processLine w line).1 ≠ .close := by rwa [heq]
      have hnext := tracks_processLine htracks hopen
      rwa [heq] at hnext
    rw [Step.run] at hrun
    split at hrun
    · cases hrun
    · cases hrun
    · next ret s₁ _ hclose heq =>
      split at hrun
      · cases hrun
      · cases hrun
        obtain ⟨h₁, h₂, h₃, h₄, h₅⟩ := hopen heq hclose
        exact ⟨h₁.congr ⟨rfl, rfl, rfl, rfl⟩, h₂, h₃, h₄, h₅⟩
  | notify response =>
    cases hrun
    split
    · obtain ⟨h₁, h₂, h₃, h₄, h₅⟩ := htracks
      refine ⟨h₁.congr ⟨rfl, rfl, rfl, rfl⟩, h₂, h₃, ?_, ?_⟩
      · simp only [idleNotify, record, append_assoc]
        exact h₄.append (by simp)
      · simp [idleNotify, record, h₅]
    · exact htracks

/-! ### Answers -/

theorem executeLine_answers (hlive : ∀ log, w.expired log = false) (hbegin : line ≠ listModeBegin)
    (hbegin' : line ≠ listOkModeBegin) :
    ∃ events, (s.executeLine w line).2.log = s.log ++ events ∧
      Phase.outside.Answers line (s.executeLine w line).1 events := by
  rw [executeLine]
  dsimp only
  generalize hret : (s.commandProcess w 0 line).1 = ret
  have hlog : (s.commandProcess w 0 line).2.log = s.log ++ [.execute 0 line ret] := by
    rw [← hret]
    rfl
  simp only [hlive, Bool.false_eq_true, or_false]
  refine ⟨.execute 0 line ret :: ending ret (ret = .ok), ?_, ?_⟩
  · by_cases hclose : ret = .close
    · rw [if_pos hclose, ending, if_pos hclose, hlog]
    · rw [if_neg hclose, ending, if_neg hclose, log_respond, hlog]
      simp
  · rw [Phase.Answers, if_neg (not_or.mpr ⟨hbegin, hbegin'⟩)]
    by_cases hclose : ret = .close
    · rw [if_pos hclose, hclose]
    · rw [if_neg hclose]

theorem endList_answers (hlive : ∀ log, w.expired log = false) {listOk : Bool}
    {collected : List Text} (h : s.InPhase (.inside listOk collected)) :
    ∃ events, (s.endList w).2.log = s.log ++ events ∧
      (Phase.inside listOk collected).Answers listModeEnd (s.endList w).1 events := by
  rw [endList_eq h]
  obtain ⟨rets, hrets, hlast, hlog⟩ :=
    processCommandListFrom_spec hlive listOk collected 0 { s with cmdList := collected }
  generalize processCommandListFrom w listOk { s with cmdList := collected } 0 collected = r
    at hlast hlog
  simp only [hlive, Bool.false_eq_true, or_false]
  refine ⟨listEvents listOk 0 collected rets ++
    ending r.1 (rets = replicate collected.length .ok), ?_, ?_⟩
  · by_cases hclose : r.1 = .close
    · rw [if_pos hclose, ending, if_pos hclose, hlog, append_nil]
    · have hok : r.1 = .ok ↔ rets = replicate collected.length .ok := by
        rw [hlast]
        exact hrets.last_ok_iff
      rw [if_neg hclose, ending, if_neg hclose]
      simp only [leaveList, log_respond, hlog, append_assoc, hok]
  · rw [Phase.Answers, if_pos rfl]
    refine ⟨rets, hrets, ?_, ?_⟩
    · by_cases hclose : r.1 = .close
      · rw [if_pos hclose, ← hlast, hclose]
      · rw [if_neg hclose, ← hlast]
    · by_cases hclose : r.1 = .close
      · rw [if_pos hclose, hclose]
      · rw [if_neg hclose]

/-- **Every line gets the answer the protocol says**, on every connection whose lists together
stay within the size limit, whatever the commands return: outside a list a line is executed at
once, and a list at its end, in order, up to the first failure. The results recorded are those of
`command_process`; and unless the connection is closed, the list fields stand for the phase after
the line, so that behind a list the client is outside list mode with an empty list. -/
theorem processLine_answers (hlive : ∀ log, w.expired log = false) {max : ℕ}
    (h : Reaches (Step.run w) (fun _ _ => True) (init max) s) (hline : line ≠ noidle)
    (hidle : s.idleWaiting = false)
    (hsize : linesSize (Phase.listed (s.received ++ [line])) ≤ max) :
    ∃ events, (s.processLine w line).2.log = s.log ++ events ∧
      (Phase.after s.received).Answers line (s.processLine w line).1 events ∧
      Genuine w (s.log ++ events) ∧
      ((s.processLine w line).1 ≠ .close →
        (s.processLine w line).2.InPhase (Phase.after (s.received ++ [line]))) := by
  have htracks := tracks_of_reaches h
  -- what is left once the answer is known
  suffices hanswer : ∃ events, (s.processLine w line).2.log = s.log ++ events ∧
      (Phase.after s.received).Answers line (s.processLine w line).1 events by
    obtain ⟨events, hlog, hanswers⟩ := hanswer
    have hgenuine := genuine_processLine htracks.phase htracks.genuine line
    exact ⟨events, hlog, hanswers, hlog ▸ hgenuine,
      fun hopen => (tracks_processLine htracks hopen).phase⟩
  have hphase := htracks.phase
  have hcases := processed hphase w line
  generalize hp : Phase.after s.received = p at hphase hcases
  generalize s.processLine w line = r at hcases ⊢
  cases hcases with
  | noidle hnoidle => exact absurd hnoidle hline
  | idling _ hidling => exact absurd hidling (by rw [hidle]; decide)
  | collect _ _ hend =>
    have htakes : (Phase.after s.received).Takes line := by
      rw [hp]
      exact ⟨hline, hend, by simp⟩
    rw [Phase.listed_of_takes htakes, linesSize_append, linesSize_singleton, ← htracks.size,
      ← htracks.max_eq] at hsize
    rw [collect_of_le hsize]
    refine ⟨[], (append_nil _).symm, ?_⟩
    rw [Phase.Answers, if_neg hend]
    exact ⟨rfl, rfl⟩
  | endList hend =>
    subst hend
    exact endList_answers hlive hphase
  | beginList listOk hbegin =>
    refine ⟨[], (append_nil _).symm, ?_⟩
    rw [Phase.Answers, if_pos (by cases listOk <;> simp [hbegin])]
    exact ⟨rfl, rfl⟩
  | execute _ hbegin hbegin' => exact executeLine_answers hlive hbegin hbegin'

def obliging : World where
  process := fun _ _ _ => (.ok, false)
  expired := fun _ => false

theorem processLine_answers_two_commands :
    ∃ s : Session, Phase.after s.received = .inside true ["ping".toList, "status".toList] ∧
      ∃ events, (s.processLine obliging listModeEnd).2.log = s.log ++ events ∧
        (Phase.after s.received).Answers listModeEnd (s.processLine obliging listModeEnd).1 events ∧
        Genuine obliging (s.log ++ events) ∧
        ((s.processLine obliging listModeEnd).1 ≠ .close →
          (s.processLine obliging listModeEnd).2.InPhase
            (Phase.after (s.received ++ [listModeEnd]))) := by
  obtain ⟨s, hs, hphase, hidle, hsize⟩ := exists_reaches (Step.run obliging)
    (fun _ _ => True) (init 100)
    [.receive listOkModeBegin, .receive "ping".toList, .receive "status".toList]
    (P := fun s => Phase.after s.received = .inside true ["ping".toList, "status".toList] ∧
      s.idleWaiting = false ∧
      linesSize (Phase.listed (s.received ++ [listModeEnd])) ≤ 100) (by decide)
  exact ⟨s, hphase, processLine_answers (fun _ => rfl) hs (by decide) hidle hsize⟩

/-! ### The size limit -/

/-- **When a line is refused**: exactly if it is added to a list and the lists of the connection,
with this line, are too large together. -/
theorem listTooLarge_mem_iff {max : ℕ} {lines : List Text} (h : Tracks w max lines s)
    (line : Text) :
    .listTooLarge ∈ (s.processLine w line).2.log ↔
      s.idleWaiting = false ∧ (Phase.after lines).Takes line ∧
        max < linesSize (Phase.listed lines ++ [line]) := by
  have haccepted := h.accepted
  have hphase := h.phase
  have hcases := processed hphase w line
  generalize hp : Phase.after lines = p at hphase hcases ⊢
  generalize s.processLine w line = r at hcases ⊢
  cases hcases with
  | noidle hline _ hevents hlog =>
    refine iff_of_false ?_ fun hno => hno.2.1.1 hline
    rw [hlog]
    obtain rfl | rfl := hevents <;> simp [haccepted]
  | idling hline hidle =>
    exact iff_of_false haccepted fun hno => absurd hno.1 (by rw [hidle]; decide)
  | collect hline hidle hend =>
    rw [linesSize_append, linesSize_singleton, ← h.size, ← h.max_eq]
    by_cases hfits : s.cmdListSize + (line.length + 1) ≤ s.maxCommandListSize
    · rw [collect_of_le hfits]
      exact iff_of_false haccepted fun hno => absurd hno.2.2 (not_lt.mpr hfits)
    · rw [not_le] at hfits
      rw [collect_of_lt hfits]
      exact iff_of_true (by simp [record]) ⟨hidle, ⟨hline, hend, by simp⟩, hfits⟩
  | @endList listOk collected hline =>
    refine iff_of_false ?_ fun hno => hno.2.1.2.1 hline
    rw [endList_eq hphase]
    have hlist := listTooLarge_notMem_processCommandListFrom (w := w)
      (s := { s with cmdList := collected }) listOk collected 0 haccepted
    dsimp only
    split
    · exact hlist
    · exact listTooLarge_notMem_respond hlist
  | beginList => exact iff_of_false haccepted fun hno => hno.2.1.2.2 rfl
  | execute =>
    refine iff_of_false ?_ fun hno => hno.2.1.2.2 rfl
    have hexecute : .listTooLarge ∉ (s.commandProcess w 0 line).2.log := by
      simp [commandProcess, record, haccepted]
    rw [executeLine]
    dsimp only
    split
    · exact hexecute
    · exact listTooLarge_notMem_respond hexecute

/-- A connection is closed for the size of a list **only if the list is too large**: the lines of
the list being built, with the one that is refused, exceed the maximum. -/
def RefusesFairly (w : World) (max : ℕ) (s : Session) (line : Text) : Prop :=
  .listTooLarge ∈ (s.processLine w line).2.log →
    max < linesSize ((Phase.after s.received).collected ++ [line])

/-- **When refusals are fair.** `cmd_list_size` is not reset at the end of a list. A line that is
added to a list is refused for no other reason than the list's size exactly when the lines of all
lists sent so far still fit, or the list being built is itself too large. -/
theorem refusesFairly_iff {max : ℕ} (h : Reaches (Step.run w) (fun _ _ => True) (init max) s)
    (line : Text) :
    RefusesFairly w max s line ↔
      (s.idleWaiting = false → (Phase.after s.received).Takes line →
        linesSize (Phase.listed s.received ++ [line]) ≤ max ∨
          max < linesSize ((Phase.after s.received).collected ++ [line])) := by
  rw [RefusesFairly, listTooLarge_mem_iff (tracks_of_reaches h)]
  constructor
  · intro hfair hidle htakes
    exact (le_or_gt _ _).imp_right fun hlt => hfair ⟨hidle, htakes, hlt⟩
  · rintro hcond ⟨hidle, htakes, hlt⟩
    exact (hcond hidle htakes).resolve_left (not_le.mpr hlt)

theorem refusesFairly_first_list :
    ∃ s, .listTooLarge ∈ (s.processLine obliging (List.replicate 600 'a')).2.log ∧
      RefusesFairly obliging 1024 s (List.replicate 600 'a') := by
  obtain ⟨s, hs, hmem, hsize⟩ := exists_reaches (Step.run obliging) (fun _ _ => True)
    (init 1024) [.receive listModeBegin, .receive (replicate 600 'a')]
    (P := fun s => .listTooLarge ∈ (s.processLine obliging (replicate 600 'a')).2.log ∧
      1024 < linesSize ((Phase.after s.received).collected ++ [replicate 600 'a']))
    (by decide +kernel)
  exact ⟨s, hmem, (refusesFairly_iff hs _).mpr fun _ _ => .inr hsize⟩

theorem not_refusesFairly_second_list :
    ∃ s, Reaches (Step.run obliging) (fun _ _ => True) (init 1024) s ∧
      ¬ RefusesFairly obliging 1024 s (List.replicate 600 'a') := by
  obtain ⟨s, hs, hmem, hsize⟩ := exists_reaches (Step.run obliging) (fun _ _ => True)
    (init 1024) [.receive listModeBegin, .receive (replicate 600 'a'), .receive listModeEnd,
      .receive listModeBegin]
    (P := fun s => .listTooLarge ∈ (s.processLine obliging (replicate 600 'a')).2.log ∧
      ¬ 1024 < linesSize ((Phase.after s.received).collected ++ [replicate 600 'a']))
    (by decide +kernel)
  exact ⟨s, hs, fun hfair => hsize (hfair hmem)⟩

end Session

end Client

end Mpd
