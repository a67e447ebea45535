import Mpd.Playlist.Moves
import Mpd.Playlist.LeaveCurrent
import Mpd.Playlist.PriorityOrder
import Mpd.Client.Output
import Mpd.Client.Protocol
import Mpd.Client.Input
import Mpd.Command.TokenizerMemory
import Mpd.Database.RoundTrip
import Mpd.Database.TagPool
import Mpd.Database.TagMerge
import Mpd.Command.Uri
import Mpd.Command.AddId
import Mpd.Command.Permission
import Mpd.Command.UniqueTags
import Mpd.Client.Idle
import Mpd.Event.Signal
import Mpd.Player.Handshake
import Mpd.Player.Errors
import Mpd.Output.Lifecycle
import Mpd.Output.WaveEncoder
import Mpd.Output.AudioPipeWriter
import Mpd.Output.HttpdClient
import Mpd.Update.Jobs
import Mpd.Update.Termination
import Mpd.Inotify.Coverage
import Mpd.State.PlaylistState
import Mpd.Stored.Edits
import Mpd.Input.TextInput
import Mpd.Input.Curl
import Mpd.Decoder.Ape
import Mpd.Decoder.Dsdiff
import Mpd.Cue.Bounds
import Mpd.Cue.Delivery
import Mpd.Config.File
import Mpd.Pcm.Samples
import Mpd.Pcm.DsdUsb
