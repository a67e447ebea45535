import Mpd.General.Text
import Mathlib.Data.List.Chain
import Mathlib.Data.Char

/-!
# The command registry

The table `commands` of `command.c`, with the permission and the number of arguments each command
asks for, and `command_lookup`, the binary search in it. The table is sorted, so that the search
finds every command in it and nothing else (`commandLookup_eq_some_iff`).
-/

namespace Mpd

open List

/-! ### Permissions -/

def permissionNone : ℕ := 0

def permissionRead : ℕ := 1

def permissionAdd : ℕ := 2

def permissionControl : ℕ := 4

def permissionAdmin : ℕ := 8

/-! ### The table -/

inductive Handler
  | add | addid | channels | clear | clearerror | close | commands | config | consume | count
  | crossfade | currentsong | decoders | delete | deleteid | disableoutput | enableoutput
  | find | findadd | idle | kill | list | listall | listallinfo | listplaylist
  | listplaylistinfo | listplaylists | load | lsinfo | mixrampdb | mixrampdelay | move | moveid
  | next | notCommands | devices | password | pause | ping | play | playid | playlist
  | playlistadd | playlistclear | playlistdelete | playlistfind | playlistid | playlistinfo
  | playlistmove | playlistsearch | plchanges | plchangesposid | previous | prio | prioid
  | random | readMessages | rename | repeat_ | replayGainMode | replayGainStatus | rescan | rm
  | save | search | searchadd | searchaddpl | seek | seekcur | seekid | sendMessage | setvol
  | shuffle | single | stats | status | sticker | stop | subscribe | swap | swapid | tagtypes
  | unsubscribe | update | urlhandlers
  deriving DecidableEq, Repr

/-- `struct command`. If `min` is `-1`, the arguments are not checked; if `max` is `-1`, there is no
maximum. -/
structure Command where
  cmd : Text
  permission : ℕ
  min : ℤ
  max : ℤ
  handler : Handler
  deriving DecidableEq

def command (cmd : String) (permission : ℕ) (min max : ℤ) (handler : Handler) : Command where
  cmd := cmd.toList
  permission := permission
  min := min
  max := max
  handler := handler

def Command.Permits (cmd : Command) (permission : ℕ) : Prop :=
  cmd.permission = permission &&& cmd.permission

def Command.Accepts (cmd : Command) (n : ℕ) : Prop :=
  cmd.min = -1 ∨ cmd.min ≤ n ∧ (n ≤ cmd.max ∨ cmd.max = -1)

def commandsBefore : List Command :=
  [command "add" permissionAdd 1 1 .add, command "addid" permissionAdd 1 2 .addid,
    command "channels" permissionRead 0 0 .channels,
    command "clear" permissionControl 0 0 .clear,
    command "clearerror" permissionControl 0 0 .clearerror,
    command "close" permissionNone (-1) (-1) .close,
    command "commands" permissionNone 0 0 .commands,
    command "config" permissionAdmin 0 0 .config,
    command "consume" permissionControl 1 1 .consume,
    command "count" permissionRead 2 (-1) .count,
    command "crossfade" permissionControl 1 1 .crossfade,
    command "currentsong" permissionRead 0 0 .currentsong,
    command "decoders" permissionRead 0 0 .decoders,
    command "delete" permissionControl 1 1 .delete,
    command "deleteid" permissionControl 1 1 .deleteid,
    command "disableoutput" permissionAdmin 1 1 .disableoutput,
    command "enableoutput" permissionAdmin 1 1 .enableoutput,
    command "find" permissionRead 2 (-1) .find,
    command "findadd" permissionRead 2 (-1) .findadd,
    command "idle" permissionRead 0 (-1) .idle,
    command "kill" permissionAdmin (-1) (-1) .kill,
    command "list" permissionRead 1 (-1) .list,
    command "listall" permissionRead 0 1 .listall,
    command "listallinfo" permissionRead 0 1 .listallinfo,
    command "listplaylist" permissionRead 1 1 .listplaylist,
    command "listplaylistinfo" permissionRead 1 1 .listplaylistinfo,
    command "listplaylists" permissionRead 0 0 .listplaylists,
    command "load" permissionAdd 1 2 .load,
    command "lsinfo" permissionRead 0 1 .lsinfo,
    command "mixrampdb" permissionControl 1 1 .mixrampdb,
    command "mixrampdelay" permissionControl 1 1 .mixrampdelay,
    command "move" permissionControl 2 2 .move,
    command "moveid" permissionControl 2 2 .moveid,
    command "next" permissionControl 0 0 .next,
    command "notcommands" permissionNone 0 0 .notCommands,
    command "outputs" permissionRead 0 0 .devices,
    command "password" permissionNone 1 1 .password,
    command "pause" permissionControl 0 1 .pause,
    command "ping" permissionNone 0 0 .ping,
    command "play" permissionControl 0 1 .play,
    command "playid" permissionControl 0 1 .playid,
    command "playlist" permissionRead 0 0 .playlist,
    command "playlistadd" permissionControl 2 2 .playlistadd,
    command "playlistclear" permissionControl 1 1 .playlistclear,
    command "playlistdelete" permissionControl 2 2 .playlistdelete,
    command "playlistfind" permissionRead 2 (-1) .playlistfind,
    command "playlistid" permissionRead 0 1 .playlistid,
    command "playlistinfo" permissionRead 0 1 .playlistinfo,
    command "playlistmove" permissionControl 3 3 .playlistmove,
    command "playlistsearch" permissionRead 2 (-1) .playlistsearch,
    command "plchanges" permissionRead 1 1 .plchanges,
    command "plchangesposid" permissionRead 1 1 .plchangesposid,
    command "previous" permissionControl 0 0 .previous,
    command "prio" permissionControl 2 (-1) .prio,
    command "prioid" permissionControl 2 (-1) .prioid,
    command "random" permissionControl 1 1 .random,
    command "readmessages" permissionRead 0 0 .readMessages,
    command "rename" permissionControl 2 2 .rename,
    command "repeat" permissionControl 1 1 .repeat_,
    command "replay_gain_mode" permissionControl 1 1 .replayGainMode,
    command "replay_gain_status" permissionRead 0 0 .replayGainStatus,
    command "rescan" permissionControl 0 1 .rescan,
    command "rm" permissionControl 1 1 .rm,
    command "save" permissionControl 1 1 .save,
    command "search" permissionRead 2 (-1) .search,
    command "searchadd" permissionAdd 2 (-1) .searchadd,
    command "searchaddpl" permissionControl 3 (-1) .searchaddpl,
    command "seek" permissionControl 2 2 .seek,
    command "seekcur" permissionControl 1 1 .seekcur,
    command "seekid" permissionControl 2 2 .seekid,
    command "sendmessage" permissionControl 2 2 .sendMessage,
    command "setvol" permissionControl 1 1 .setvol,
    command "shuffle" permissionControl 0 1 .shuffle,
    command "single" permissionControl 1 1 .single,
    command "stats" permissionRead 0 0 .stats,
    command "status" permissionRead 0 0 .status]

def commandsAfter : List Command :=
  [command "stop" permissionControl 0 0 .stop, command "subscribe" permissionRead 1 1 .subscribe,
    command "swap" permissionControl 2 2 .swap,
    command "swapid" permissionControl 2 2 .swapid,
    command "tagtypes" permissionRead 0 0 .tagtypes,
    command "unsubscribe" permissionRead 1 1 .unsubscribe,
    command "update" permissionControl 0 1 .update,
    command "urlhandlers" permissionRead 0 0 .urlhandlers]

def commands (enableSticker : Bool) : List Command :=
  commandsBefore ++
    ((if enableSticker then [command "sticker" permissionAdmin 3 (-1) .sticker] else []) ++
      commandsAfter)

/-! ### Lookup -/

def lookupFrom (table : List Command) (name : Text) : ℕ → ℕ → ℕ → Option Command
  | 0, _, _ => none
  | rounds + 1, a, b =>
    let i := (a + b) / 2
    match table[i]? with
    | none => none
    | some entry =>
      if name = entry.cmd then some entry
      else
        let (a, b) := if name < entry.cmd then (a, i) else (i + 1, b)
        if a < b then lookupFrom table name rounds a b else none

def commandLookup (table : List Command) (name : Text) : Option Command :=
  lookupFrom table name (table.length + 1) 0 table.length

variable {table : List Command} {name : Text} {entry : Command}

theorem lookupFrom_sound {rounds a b : ℕ} (h : lookupFrom table name rounds a b = some entry) :
    entry ∈ table ∧ entry.cmd = name := by
  induction rounds generalizing a b with
  | zero => cases h
  | succ rounds ih =>
    rw [lookupFrom] at h
    split at h
    · cases h
    · next entry' hentry =>
      split at h
      · next hname =>
        cases h
        exact ⟨mem_of_getElem? hentry, hname.symm⟩
      · generalize (if name < entry'.cmd then (a, (a + b) / 2) else ((a + b) / 2 + 1, b)) = ab at h
        dsimp only at h
        split at h
        · exact ih h
        · cases h

theorem lookupFrom_complete (hsorted : table.Pairwise fun e e' => e.cmd < e'.cmd) {j : ℕ}
    (hj : table[j]? = some entry) {rounds a b : ℕ} (ha : a ≤ j) (hb : j < b)
    (hlen : b ≤ table.length) (hrounds : b - a ≤ rounds) :
    lookupFrom table entry.cmd rounds a b = some entry := by
  induction rounds generalizing a b with
  | zero => omega
  | succ rounds ih =>
    rw [lookupFrom]
    have hi : (a + b) / 2 < table.length := by omega
    rw [getElem?_eq_getElem hi]
    obtain ⟨hjlen, rfl⟩ := List.getElem?_eq_some_iff.mp hj
    rw [pairwise_iff_getElem] at hsorted
    obtain hlt | heq | hgt := Nat.lt_trichotomy j ((a + b) / 2)
    · have hcmp := hsorted j _ hjlen hi hlt
      dsimp only
      rw [if_neg (ne_of_lt hcmp), if_pos hcmp]
      rw [if_pos (by omega)]
      exact ih ha hlt (by omega) (by omega)
    · subst heq
      exact if_pos rfl
    · have hcmp := hsorted _ j hi hjlen hgt
      dsimp only
      rw [if_neg (ne_of_gt hcmp), if_neg (not_lt_of_gt hcmp)]
      rw [if_pos (by omega)]
      exact ih hgt hb hlen (by omega)

theorem commands_sorted (enableSticker : Bool) :
    (commands enableSticker).Pairwise fun e e' => e.cmd < e'.cmd := by
  cases enableSticker <;> decide +kernel

/-- **`command_lookup`** finds exactly the commands in the table. -/
theorem commandLookup_eq_some_iff {enableSticker : Bool} :
    commandLookup (commands enableSticker) name = some entry ↔
      entry ∈ commands enableSticker ∧ entry.cmd = name := by
  constructor
  · exact lookupFrom_sound
  · rintro ⟨hmem, rfl⟩
    obtain ⟨j, hj⟩ := getElem?_of_mem hmem
    have hlt := (List.getElem?_eq_some_iff.mp hj).1
    exact lookupFrom_complete (commands_sorted _) hj (Nat.zero_le _) hlt le_rfl (by omega)

end Mpd
