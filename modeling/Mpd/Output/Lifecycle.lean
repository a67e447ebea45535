import Mpd.Output.Thread

/-!
# The life cycle of a device

How a plugin and its filters must be driven is a machine of its own, `Lifecycle`, that accepts or
rejects each call: a device is opened only while it is enabled and not open, is used only while it
is open, and filters are opened and closed in turn.

The thread closes the device itself when the plugin fails to play or to pause. If a `CLOSE` command
has been delivered meanwhile, the device is then closed a second time, which only an assertion
prevents (`exists_not_driven`); for `PAUSE` the source takes care of this. In runs in which nothing
fails while a `CLOSE` command waits, the machine accepts all calls, and an `OPEN` command goes on to
open the filters and the plugin (`reaches_driven`).

`ao_open` reads the result of `ao_enable` the wrong way round where the device has to be enabled
first: `MPD_SUCCESS`, which is zero, counts as a failure, and an error code as success. This does
not come up, because only enabled devices are opened.
-/

namespace Mpd

open List

namespace AudioOutput

/-! ### The machine -/

/-- What a plugin and its filters have been told. -/
structure Lifecycle where
  /-- the enable call has succeeded, and disable has not been called since -/
  enabled : Bool
  /-- an open call has succeeded, and close has not been called since -/
  opened : Bool
  /-- the filters that have been opened and not closed since -/
  filters : Filter → Bool

namespace Lifecycle

def init (enabled : Bool) : Lifecycle where
  enabled := enabled
  opened := false
  filters := fun _ => false

def step (st : Lifecycle) : Call → Option Lifecycle
  | .enable ret => some (if ret = success then { st with enabled := true } else st)
  | .disable => some { st with enabled := false }
  | .open ret =>
    if st.enabled ∧ st.opened = false then
      some (if ret = success then { st with opened := true } else st)
    else none
  | .close => if st.opened then some { st with opened := false } else none
  | .sendTag => if st.opened then some st else none
  | .play _ => if st.opened then some st else none
  | .pause _ => if st.opened then some st else none
  | .drain => if st.opened then some st else none
  | .cancel => if st.opened then some st else none
  | .filterOpen f success =>
    if st.filters f then none
    else some (if success then { st with filters := Function.update st.filters f true } else st)
  | .filterClose f =>
    if st.filters f then some { st with filters := Function.update st.filters f false } else none

def follow (st : Lifecycle) (calls : List Call) : Option Lifecycle :=
  calls.foldlM step st

theorem follow_append (st : Lifecycle) (calls calls' : List Call) :
    st.follow (calls ++ calls') = (st.follow calls).bind fun st => st.follow calls' :=
  foldlM_append

theorem follow_enable_of_ne {ret : ℤ} (h : ret ≠ success) (st : Lifecycle) :
    st.follow [.enable ret] = some st := by
  simp [follow, step, h]

theorem follow_open_of_ne {ret : ℤ} (h : ret ≠ success) (filters : Filter → Bool) :
    follow ⟨true, false, filters⟩ [.open ret] = some ⟨true, false, filters⟩ := by
  simp [follow, step, h]

end Lifecycle

/-- The thread plays or pauses. -/
def Pc.busy : Pc → Bool
  | .chunks | .filtering | .playing _ | .inPlay _ | .pausing | .inPause => true
  | .top | .bottom | .killed => false

/-- What a command that waits can rely on. A device that should be reopened may have failed. -/
def Command.Expects (enabled isOpen : Bool) : Command → Prop
  | .open => enabled = true ∧ isOpen = false
  | .reopen => enabled = true
  | .close => isOpen = true
  | .kill => isOpen = false
  | _ => True

theorem Command.Expects.failed {enabled : Bool} {cmd : Command} (h : cmd.Expects enabled true)
    (hclose : cmd ≠ .close) : cmd.Expects enabled false := by
  cases cmd with
  | close => exact absurd rfl hclose
  | «open» => exact ⟨h.1, rfl⟩
  | kill => rfl
  | _ => exact h

/-- The attempt ends with enabling, the filter or the plugin. -/
def GoesOn (calls : List Call) : Prop :=
  (∃ ret, ret ≠ success ∧ .enable ret ∈ calls) ∨ .filterOpen .chain false ∈ calls ∨
    .filterOpen .chain true ∈ calls ∧ ∃ ret, .open ret ∈ calls

/-! ### The calls that the functions make -/

namespace Output

variable {ao : Output} {enabled opened : Bool}

def filters (ao : Output) : Filter → Bool
  | .chain => true
  | .replayGain => ao.replayGainFilter
  | .otherReplayGain => ao.otherReplayGainFilter

def openCalls (ao : Output) (success : Bool) : List Call :=
  (if ao.replayGainFilter then [.filterOpen .replayGain true] else []) ++
    (if ao.otherReplayGainFilter then [.filterOpen .otherReplayGain true] else []) ++
    [.filterOpen .chain success] ++
    if success then []
    else
      (if ao.replayGainFilter then [.filterClose .replayGain] else []) ++
        if ao.otherReplayGainFilter then [.filterClose .otherReplayGain] else []

def closeCalls (ao : Output) : List Call :=
  (if ao.replayGainFilter then [.filterClose .replayGain] else []) ++
    (if ao.otherReplayGainFilter then [.filterClose .otherReplayGain] else []) ++
    [.filterClose .chain]

theorem filterOpen_eq (ao : Output) (r : Results) :
    ao.filterOpen r = (r.filterOpen, { ao with log := ao.log ++ ao.openCalls r.filterOpen }) := by
  cases h₁ : ao.replayGainFilter <;> cases h₂ : ao.otherReplayGainFilter <;>
    cases h₃ : r.filterOpen <;>
    simp [filterOpen, replayGainOpen, otherReplayGainOpen, replayGainClose, otherReplayGainClose,
      call, openCalls, h₁, h₂, h₃]

theorem filterClose_eq (ao : Output) :
    ao.filterClose = { ao with log := ao.log ++ ao.closeCalls } := by
  cases h₁ : ao.replayGainFilter <;> cases h₂ : ao.otherReplayGainFilter <;>
    simp [filterClose, replayGainClose, otherReplayGainClose, call, closeCalls, h₁, h₂]

theorem follow_openCalls (ao : Output) (success : Bool) :
    (⟨enabled, opened, fun _ => false⟩ : Lifecycle).follow (ao.openCalls success) =
      some ⟨enabled, opened, fun f => success && ao.filters f⟩ := by
  cases h₁ : ao.replayGainFilter <;> cases h₂ : ao.otherReplayGainFilter <;> cases success <;>
    simp [openCalls, Lifecycle.follow, Lifecycle.step, h₁, h₂] <;>
    (funext f; cases f <;> simp [filters, h₁, h₂, Function.update])

theorem follow_closeCalls (ao : Output) :
    (⟨enabled, opened, ao.filters⟩ : Lifecycle).follow ao.closeCalls =
      some ⟨enabled, opened, fun _ => false⟩ := by
  cases h₁ : ao.replayGainFilter <;> cases h₂ : ao.otherReplayGainFilter <;>
    simp [closeCalls, Lifecycle.follow, Lifecycle.step, filters, h₁, h₂] <;>
    (funext f; cases f <;> simp [filters, h₁, h₂, Function.update])

/-! ### What the functions preserve -/

def Follows (enabledBefore : Bool) (log : List Call) (st : Lifecycle) : Prop :=
  (Lifecycle.init enabledBefore).follow log = some st

variable {enabledBefore : Bool}

theorem Follows.append {log calls : List Call} {st st' : Lifecycle}
    (h : Follows enabledBefore log st) (hcalls : st.follow calls = some st') :
    Follows enabledBefore (log ++ calls) st' := by
  rw [Follows, Lifecycle.follow_append, h]
  exact hcalls

theorem Follows.call {st : Lifecycle} (h : Follows enabledBefore ao.log st) {c : Call}
    (hc : st.step c = some st) : Follows enabledBefore (ao.call c).log st := by
  refine h.append ?_
  simp [Lifecycle.follow, hc]

/-- The machine knows whether the device is enabled, and whether it is open with all its
filters. -/
structure Inv (ao : Output) : Prop where
  follows : Follows ao.enabledBefore ao.log
    ⟨ao.reallyEnabled, ao.isOpen, fun f => ao.isOpen && ao.filters f⟩
  opens : ∀ calls ∈ ao.opens, GoesOn calls

section

variable (h : ao.Inv)
include h

theorem Inv.follows_closed (hopen : ao.isOpen = false) :
    Follows ao.enabledBefore ao.log ⟨ao.reallyEnabled, false, fun _ => false⟩ := by
  have hfollows := h.follows
  rw [hopen] at hfollows
  exact hfollows

theorem Inv.follows_open (hopen : ao.isOpen = true) :
    Follows ao.enabledBefore ao.log ⟨ao.reallyEnabled, true, ao.filters⟩ := by
  have hfollows := h.follows
  rw [hopen] at hfollows
  exact hfollows

theorem Inv.call (hopen : ao.isOpen = true) {c : Call}
    (hc : ∀ st : Lifecycle, st.opened = true → st.step c = some st) : (ao.call c).Inv :=
  ⟨h.follows.call (hc _ hopen), h.opens⟩

theorem Inv.close (hopen : ao.isOpen = true) (drain : Bool) : (ao.close drain).Yields fun ao' =>
      ao'.Inv ∧ ao'.isOpen = false ∧ ao'.reallyEnabled = ao.reallyEnabled ∧
        ao'.command = ao.command := by
  refine .after fun _ => .ok ?_
  have hclosed : Follows ao.enabledBefore
      (ao.log ++ [if drain then .drain else .cancel] ++ [.close])
      ⟨ao.reallyEnabled, false, ao.filters⟩ := by
    rw [append_assoc]
    refine (h.follows_open hopen).append ?_
    cases drain <;> rfl
  rw [filterClose_eq]
  exact ⟨⟨hclosed.append (follow_closeCalls ao), h.opens⟩, rfl, rfl, rfl⟩

theorem Inv.enable (r : Results) : (ao.enable r).2.Inv := by
  rw [Output.enable]
  split
  · exact h
  · dsimp only
    split
    · next henabled hret =>
      exact ⟨h.follows.append (Lifecycle.follow_enable_of_ne hret _), h.opens⟩
    · next henabled hret =>
      rw [not_not.mp hret]
      exact ⟨h.follows.append rfl, h.opens⟩

theorem Inv.disable : ao.disable.Yields Inv := by
  refine .bind (P := Inv) ?_ fun ao' h' => .ok ?_
  · exact .ite (fun hopen => (h.close hopen false).mono fun _ h' => h'.1) (fun _ => .ok h)
  · split
    · exact ⟨h'.follows.append rfl, h'.opens⟩
    · exact h'

theorem Inv.openFilterAndPlugin (henabled : ao.reallyEnabled = true)
    (hopen : ao.isOpen = false) (r : Results) :
    (ao.openFilterAndPlugin r).Inv ∧ (ao.openFilterAndPlugin r).opens = ao.opens ∧
      ∃ calls, (ao.openFilterAndPlugin r).log = ao.log ++ calls ∧ GoesOn calls := by
  have hclosed := h.follows_closed hopen
  have hopened := hclosed.append (follow_openCalls ao r.filterOpen)
  have hchain : .filterOpen .chain r.filterOpen ∈ ao.openCalls r.filterOpen := by
    simp [openCalls]
  rw [Output.openFilterAndPlugin, filterOpen_eq]
  cases hfilter : r.filterOpen with
  | false =>
    rw [hfilter] at hopened hchain
    refine ⟨⟨?_, h.opens⟩, rfl, _, rfl, .inr (.inl hchain)⟩
    rw [hopen]
    exact hopened
  | true =>
    rw [hfilter] at hopened hchain
    dsimp only
    split
    · next hret =>
      refine ⟨⟨?_, ?_⟩, ?_, ?_⟩
      · rw [henabled] at hopened
        have hfailed := hopened.append (Lifecycle.follow_open_of_ne hret _)
        rw [filterClose_eq]
        rw [hopen, henabled]
        exact hfailed.append (follow_closeCalls ao)
      · rw [filterClose_eq]
        exact h.opens
      · rw [filterClose_eq]
        rfl
      · rw [filterClose_eq]
        dsimp only [Output.call]
        refine ⟨ao.openCalls true ++ [.open r.pluginOpen] ++ ao.closeCalls, ?_,
          .inr (.inr ⟨?_, r.pluginOpen, ?_⟩)⟩
        · simp only [append_assoc]
          rfl
        · simp [hchain]
        · exact mem_append_left _ (mem_append_right _ (mem_singleton_self _))
    · next hret =>
      refine ⟨⟨?_, h.opens⟩, rfl, ao.openCalls true ++ [.open r.pluginOpen], ?_,
        .inr (.inr ⟨mem_append_left _ hchain, _,
          mem_append_right _ (mem_singleton_self _)⟩)⟩
      · dsimp only [Output.call]
        rw [not_not.mp hret]
        rw [henabled] at hopened ⊢
        exact hopened.append rfl
      · exact append_assoc _ _ _

theorem Inv.openOutput (henabled : ao.reallyEnabled = true) (hopen : ao.isOpen = false)
    (r : Results) :
    (ao.openOutput r).Yields fun ao' =>
      ao'.Inv ∧ ao'.opens = ao.opens ∧ ∃ calls, ao'.log = ao.log ++ calls ∧ GoesOn calls := by
  refine .after fun _ => .after fun _ => .after fun _ => ?_
  have hret : { ao with failTimer := false }.enable r = (1, { ao with failTimer := false }) :=
    if_pos henabled
  rw [hret]
  have hinv : { ao with failTimer := false }.Inv := ⟨h.follows, h.opens⟩
  exact .ok (hinv.openFilterAndPlugin henabled hopen r)

theorem Inv.reopenFilter (hopen : ao.isOpen = true) (r : Results) : (ao.reopenFilter r).Inv := by
  have hclosed := (h.follows_open hopen).append (follow_closeCalls ao)
  have hopened := hclosed.append (follow_openCalls ao r.filterOpen)
  rw [Output.reopenFilter, filterClose_eq, filterOpen_eq]
  cases hfilter : r.filterOpen with
  | false =>
    rw [hfilter] at hopened
    refine ⟨?_, h.opens⟩
    exact hopened.append rfl
  | true =>
    rw [hfilter] at hopened
    refine ⟨?_, h.opens⟩
    rw [hopen]
    exact hopened

theorem Inv.closeForReopen :
    ao.closeForReopen.Yields fun ao' => ao'.Inv ∧ ao'.reallyEnabled = ao.reallyEnabled := by
  refine .ite (fun hclose => ?_) (fun hkeep => .ok ⟨h, rfl⟩)
  refine (h.close hclose.2 true).bind fun ao' h' => .ok ?_
  exact ⟨⟨h'.1.follows, h'.1.opens⟩, h'.2.2.1⟩

theorem Inv.reopen (henabled : ao.reallyEnabled = true) (r : Results) :
    (ao.reopen r).Yields Inv := by
  refine h.closeForReopen.bind fun ao' h' => ?_
  refine .ite (fun hopen => .ok (h'.1.reopenFilter hopen r)) (fun hopen => ?_)
  exact (h'.1.openOutput (h'.2.trans henabled) (Bool.eq_false_iff.mpr hopen) r).mono
    fun _ h'' => h''.1

end

/-! ### The steps of the thread -/

/-- The thread plays or pauses only while the device is open, and ends only while it is not. -/
structure Driven (ao : Output) : Prop where
  inv : ao.Inv
  busy : ao.pc.busy = true → ao.isOpen = true
  expects : ao.command.Expects ao.reallyEnabled ao.isOpen
  killed : ao.pc = .killed → ao.isOpen = false

theorem driven_init
    (debug enabledBefore replayGainFilter otherReplayGainFilter fullyDefined : Bool) :
    (init debug enabledBefore replayGainFilter otherReplayGainFilter fullyDefined).Driven :=
  ⟨⟨rfl, fun _ h => absurd h not_mem_nil⟩, fun h => absurd h Bool.false_ne_true, trivial,
    fun _ => rfl⟩

theorem Inv.driven (h : ao.Inv) (hpc : ao.pc = .top ∨ ao.pc = .bottom)
    (hexpects : ao.command.Expects ao.reallyEnabled ao.isOpen) : ao.Driven where
  inv := h
  busy hbusy := by
    rcases hpc with hpc | hpc <;>
      (rw [hpc] at hbusy
       cases hbusy)
  expects := hexpects
  killed hkilled := by
    rw [hkilled] at hpc
    exact hpc.elim nofun nofun

theorem Inv.finished (h : ao.Inv) {pc : Pc} (hpc : pc = .top ∨ pc = .bottom) :
    (ao.finished pc).Driven :=
  Inv.driven ⟨h.follows, h.opens⟩ hpc trivial

/-- The device has been closed because it failed. -/
theorem Inv.failed (h : ao.Inv) (hopen : ao.isOpen = true)
    (hexpects : ao.command.Expects ao.reallyEnabled ao.isOpen) (hclose : ao.command ≠ .close) :
    (ao.close false).Yields fun ao' =>
      ao'.Inv ∧ ao'.command.Expects ao'.reallyEnabled ao'.isOpen := by
  refine (h.close hopen false).mono ?_
  rintro ao' ⟨hinv, hclosed, henabled, hcommand⟩
  rw [hopen] at hexpects
  rw [hclosed, henabled, hcommand]
  exact ⟨hinv, hexpects.failed hclose⟩

theorem Driven.execute (h : ao.Driven) (r : Results) : (ao.execute r).Yields Driven := by
  have hinv := h.inv
  have hexpects := h.expects
  rw [Output.execute]
  split
  · exact .ok (Inv.driven ⟨hinv.follows, hinv.opens⟩ (.inr rfl) hexpects)
  · exact .ok ((hinv.enable r).finished (.inr rfl))
  · exact hinv.disable.bind fun _ h' => .ok (h'.finished (.inr rfl))
  · next hcmd =>
    rw [hcmd] at hexpects
    refine (hinv.openOutput hexpects.1 hexpects.2 r).bind fun ao' h' => .ok ?_
    obtain ⟨hinv', hopens, calls, hlog, hcalls⟩ := h'
    have hopened : { ao' with opens := ao'.log.drop ao.log.length :: ao'.opens }.Inv := by
      refine ⟨hinv'.follows, ?_⟩
      rw [hlog, drop_left, forall_mem_cons]
      exact ⟨hcalls, hinv'.opens⟩
    exact hopened.finished (.inr rfl)
  · next hcmd =>
    rw [hcmd] at hexpects
    exact (hinv.reopen hexpects r).bind fun _ h' => .ok (h'.finished (.inr rfl))
  · next hcmd =>
    rw [hcmd] at hexpects
    refine .after fun _ => .after fun _ => ?_
    exact (hinv.close hexpects false).bind fun _ h' => .ok (h'.1.finished (.inr rfl))
  · refine .ite (fun _ => .ok (hinv.finished (.inr rfl))) (fun hopen => ?_)
    rw [Bool.not_eq_false] at hopen
    have hcancel := hinv.call (c := .cancel) hopen fun st hst => if_pos hst
    exact .ok ⟨⟨hcancel.follows, hcancel.opens⟩, (fun _ => hopen), trivial, nofun⟩
  · refine .ite (fun hopen => .after fun _ => .ok ?_) (fun _ => .ok (hinv.finished (.inl rfl)))
    exact (hinv.call (c := .drain) hopen fun st hst => if_pos hst).finished (.inl rfl)
  · have hinv' : { ao with chunk := false }.Inv := ⟨hinv.follows, hinv.opens⟩
    refine .ok (Inv.finished ?_ (.inl rfl))
    split
    · next hopen => exact hinv'.call hopen fun st hst => if_pos hst
    · exact hinv'
  · next hcmd =>
    rw [hcmd] at hexpects
    exact .ok ⟨⟨hinv.follows, hinv.opens⟩, (fun hbusy => nomatch hbusy), trivial, fun _ => hexpects⟩

theorem Driven.pauseReturn (h : ao.Driven) (hopen : ao.isOpen = true) {ret : Bool}
    (hret : ret = false → ao.command ≠ .close) : (ao.pauseReturn ret).Yields Driven := by
  have hcall : (ao.call (.pause ret)).Inv := h.inv.call hopen fun st hst => if_pos hst
  refine .ite (fun hfailed => ?_) (fun _ => .branch (.ok ?_) (.ok ?_))
  · refine (hcall.failed hopen h.expects (hret hfailed)).bind fun ao' h' => .ok ?_
    exact Inv.driven ⟨h'.1.follows, h'.1.opens⟩ (.inl rfl) h'.2
  · exact ⟨⟨hcall.follows, hcall.opens⟩, (fun _ => hopen), h.expects, nofun⟩
  · exact Inv.driven ⟨hcall.follows, hcall.opens⟩ (.inl rfl) h.expects

theorem Driven.beginPlay (h : ao.Driven) (available : Bool) :
    (ao.beginPlay available).Yields Driven := by
  have hinv := h.inv
  have htop : { ao with pc := .top }.Driven :=
    Inv.driven ⟨hinv.follows, hinv.opens⟩ (.inl rfl) h.expects
  refine .ite (fun _ => .ok htop) (fun hopen => ?_)
  rw [not_or, Bool.not_eq_false] at hopen
  refine .branch .error (.branch (.ok ?_) <| .ok htop)
  exact ⟨⟨hinv.follows, hinv.opens⟩, (fun _ => hopen.1), h.expects, nofun⟩

theorem Driven.nextChunk (h : ao.Driven) (hopen : ao.isOpen = true) (tag : Bool) :
    (ao.nextChunk tag).Yields Driven := by
  refine .branch .error (.ok ?_)
  cases tag with
  | false => exact ⟨⟨h.inv.follows, h.inv.opens⟩, (fun _ => hopen), h.expects, nofun⟩
  | true =>
    have hcall := h.inv.call (c := .sendTag) hopen fun st hst => if_pos hst
    exact ⟨⟨hcall.follows, hcall.opens⟩, (fun _ => hopen), h.expects, nofun⟩

theorem Driven.filtered (h : ao.Driven) (hopen : ao.isOpen = true) {size : Option ℕ}
    (hsize : size = none → ao.command ≠ .close) : (ao.filtered size).Yields Driven := by
  cases size with
  | none =>
    refine (h.inv.failed hopen h.expects (hsize rfl)).bind fun ao' h' => .ok ?_
    exact Inv.driven ⟨h'.1.follows, h'.1.opens⟩ (.inl rfl) h'.2
  | some size => exact .ok ⟨⟨h.inv.follows, h.inv.opens⟩, (fun _ => hopen), h.expects, nofun⟩

theorem Driven.playReturn (h : ao.Driven) (hopen : ao.isOpen = true) (size : ℕ) {nbytes : ℕ}
    (hnbytes : nbytes = 0 → ao.command ≠ .close) : (ao.playReturn size nbytes).Yields Driven := by
  have hcall : (ao.call (.play nbytes)).Inv := h.inv.call hopen fun st hst => if_pos hst
  refine .ite (fun hfailed => ?_) (fun _ => .after fun _ => .ok ?_)
  · refine (hcall.failed hopen h.expects (hnbytes hfailed)).bind fun ao' h' => ?_
    refine .after fun _ => .ok ?_
    exact Inv.driven ⟨h'.1.follows, h'.1.opens⟩ (.inl rfl) h'.2
  · exact ⟨⟨hcall.follows, hcall.opens⟩, (fun _ => hopen), h.expects, nofun⟩

theorem expects_of_sends {cmd : Command} (hsends : ao.sends cmd = true) :
    cmd.Expects ao.reallyEnabled ao.isOpen := by
  cases cmd with
  | «open» => simpa [sends, Command.Expects] using hsends
  | reopen => exact (Bool.and_eq_true_iff.mp hsends).1
  | close => exact hsends
  | kill => simpa [sends, Command.Expects] using hsends
  | _ => trivial

theorem Driven.deliver (h : ao.Driven) (cmd : Command) : (ao.deliver cmd).Yields Driven := by
  refine .branch .error (.ite (fun _ => .error) fun hsends => .ok ?_)
  have hexpects := expects_of_sends (Bool.not_eq_false _ ▸ hsends)
  split
  · exact ⟨⟨h.inv.follows, h.inv.opens⟩, h.busy, hexpects, h.killed⟩
  · exact ⟨⟨h.inv.follows, h.inv.opens⟩, h.busy, hexpects, h.killed⟩

end Output

/-! ### Runs -/

/-- A call of the step reports a failure, so that the thread closes the device. -/
def Step.fails : Step → Bool
  | .filtered size => size.isNone
  | .playReturn nbytes => nbytes = 0
  | .pauseReturn ret => !ret
  | _ => false

/-- Nothing fails while a `CLOSE` command waits. -/
def Step.Prepared (a : Step) (ao : Output) : Prop :=
  a.fails = true → ao.command ≠ .close
  deriving Decidable

theorem Step.run_driven {a : Step} {ao : Output} (h : ao.Driven) (ha : a.Prepared ao) :
    (a.run ao).Yields Output.Driven := by
  have hinv : { ao with chunk := false }.Inv := ⟨h.inv.follows, h.inv.opens⟩
  have hopen : ∀ {pc : Pc}, pc.busy = true → ao.pc = pc → ao.isOpen = true :=
    fun hbusy hpc => h.busy (hpc ▸ hbusy)
  -- the thread goes on in another place, with the device open as before
  have hmoved : ∀ {pc : Pc}, pc.busy = true → ao.isOpen = true →
      { ao with pc := pc }.Driven := by
    intro pc hbusy hopen
    refine ⟨⟨hinv.follows, hinv.opens⟩, fun _ => hopen, h.expects, fun hkilled => ?_⟩
    obtain rfl : pc = .killed := hkilled
    cases hbusy
  cases a with
  | deliver cmd => exact h.deliver cmd
  | unpause =>
    refine .branch .error (Except.yields_guard.mpr fun _ => ?_)
    exact ⟨⟨hinv.follows, hinv.opens⟩, h.busy, trivial, h.killed⟩
  | clearChunk => exact .ok ⟨hinv, h.busy, h.expects, h.killed⟩
  | allowPlay => exact .ok ⟨⟨hinv.follows, hinv.opens⟩, h.busy, h.expects, h.killed⟩
  | resetReopen => exact .ok ⟨⟨hinv.follows, hinv.opens⟩, h.busy, h.expects, h.killed⟩
  | execute r => exact .branch (h.execute r) .error
  | beginPlay available =>
    exact .branch (h.beginPlay available) .error
  | nextChunk tag =>
    exact .ite (fun hpc => h.nextChunk (hopen rfl hpc) tag) (fun _ => .error)
  | filtered size =>
    refine .ite (fun hpc => h.filtered (hopen rfl hpc) ?_) (fun _ => .error)
    exact fun hsize => ha (Option.isNone_iff_eq_none.mpr hsize)
  | play =>
    rw [Step.run]
    split
    · next size hpc => exact Except.yields_guard.mpr fun _ => hmoved rfl (hopen rfl hpc)
    · exact .error
  | playReturn nbytes =>
    rw [Step.run]
    split
    · next size hpc =>
      exact h.playReturn (hopen rfl hpc) size fun hnbytes => ha (decide_eq_true hnbytes)
    · exact .error
  | endChunk =>
    rw [Step.run]
    split
    · next size hpc =>
      refine .branch (.after fun _ => .ok ?_) .error
      exact hmoved rfl (hopen rfl hpc)
    · exact .error
  | endPlay =>
    refine Except.yields_guard.mpr fun _ => ?_
    exact Output.Inv.driven ⟨hinv.follows, hinv.opens⟩ (.inl rfl) h.expects
  | pause => exact Except.yields_guard.mpr fun hpc => hmoved rfl (hopen rfl hpc)
  | pauseReturn ret =>
    refine .ite (fun hpc => h.pauseReturn (hopen rfl hpc) ?_) (fun _ => .error)
    exact fun hret => ha (congrArg not hret)
  | endPause =>
    refine Except.yields_guard.mpr fun _ => ?_
    exact Output.Inv.driven ⟨hinv.follows, hinv.opens⟩ (.inl rfl) h.expects

/-- **The plugin is driven according to its life cycle** in a run in which no filter, play or pause
call fails while a `CLOSE` command waits: the life cycle allows every call; the device is open, with
all its filters, if and only if the output thread believes so, and is not when the thread ends; and
every `OPEN` command has gone on to open the filters and the plugin. -/
theorem reaches_driven
    {debug enabledBefore replayGainFilter otherReplayGainFilter fullyDefined : Bool} {ao : Output}
    (h : Reaches Step.run Step.Prepared
      (.init debug enabledBefore replayGainFilter otherReplayGainFilter fullyDefined) ao) :
    (Lifecycle.init ao.enabledBefore).follow ao.log =
        some ⟨ao.reallyEnabled, ao.isOpen, fun f => ao.isOpen && ao.filters f⟩ ∧
      (ao.pc = .killed → ao.isOpen = false) ∧ ∀ calls ∈ ao.opens, GoesOn calls := by
  have hdriven : ao.Driven :=
    h.invariant (Output.driven_init ..) fun _ _ ha hdriven => Step.run_driven hdriven ha
  exact ⟨hdriven.inv.follows, hdriven.killed, hdriven.inv.opens⟩

def opened : List Step :=
  [.deliver .enable, .execute ⟨success, true, success⟩, .beginPlay false, .deliver .open,
    .execute ⟨success, true, success⟩, .beginPlay true, .nextChunk false, .filtered (some 4), .play]

/-- The plugin fails to play while `PAUSE` waits; later it plays until it is closed. -/
theorem reaches_driven_play : ∃ ao : Output,
    Reaches Step.run Step.Prepared (.init true false true false false) ao ∧
      (ao.log.length = 18 ∧ ao.pc = .killed) ∧
      (Lifecycle.init ao.enabledBefore).follow ao.log =
          some ⟨ao.reallyEnabled, ao.isOpen, fun f => ao.isOpen && ao.filters f⟩ ∧
        (ao.pc = .killed → ao.isOpen = false) ∧ ∀ calls ∈ ao.opens, GoesOn calls := by
  obtain ⟨ao, hao, hlog⟩ := exists_reaches Step.run Step.Prepared
    (.init true false true false false)
    (opened ++ [.deliver .pause, .playReturn 0, .execute ⟨success, true, success⟩,
      .beginPlay false, .deliver .open, .execute ⟨success, true, success⟩, .beginPlay true,
      .nextChunk true, .filtered (some 4), .play, .deliver .close, .playReturn 4, .endChunk,
      .endPlay, .execute ⟨success, true, success⟩, .beginPlay false, .deliver .kill,
      .execute ⟨success, true, success⟩])
    (P := fun ao => ao.log.length = 18 ∧ ao.pc = .killed) (by decide)
  exact ⟨ao, hao, hlog, reaches_driven hao⟩

/-- The plugin fails to play while `CLOSE` waits: the assertion fails, and without assertions the
device is closed twice. -/
theorem exists_not_driven :
    (∃ ao : Output, Reaches Step.run (fun _ _ => True) (.init true false false false false) ao ∧
      ao.command = .close ∧ ao.isOpen = false ∧
      Step.run (.execute ⟨success, true, success⟩) ao = .error .notOpen) ∧
    ∃ ao : Output, Reaches Step.run (fun _ _ => True) (.init false false false false false) ao ∧
      ao.log = [.enable success, .filterOpen .chain true, .open success, .play 0,
        .cancel, .close, .filterClose .chain, .cancel, .close, .filterClose .chain] ∧
      ((Lifecycle.init false).follow ao.log).isNone := by
  constructor
  · exact exists_reaches _ _ _ (opened ++ [.deliver .close, .playReturn 0]) (by decide)
  · exact exists_reaches _ _ _
      (opened ++ [.deliver .close, .playReturn 0, .execute ⟨success, true, success⟩]) (by decide)

end AudioOutput

end Mpd
