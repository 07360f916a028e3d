import Chiptune.Buffer
import Chiptune.Cli.Args
import Chiptune.Cli.Run
import Chiptune.Directive
import Chiptune.Directory
import Chiptune.Error
import Chiptune.Error.Diagnostic
import Chiptune.Image
import Chiptune.Instr
import Chiptune.Instr.Emission
import Chiptune.Instr.Reader
import Chiptune.Json
import Chiptune.Json.Reader
import Chiptune.Literal
import Chiptune.Main
import Chiptune.Meter.Bank
import Chiptune.Meter.Config
import Chiptune.Meter.Shared
import Chiptune.Meter.Simple
import Chiptune.Meter.Smoothed
import Chiptune.Mnemonic
import Chiptune.Playback.DisplayName
import Chiptune.Playback.Engine
import Chiptune.Playback.Session
import Chiptune.Score
import Chiptune.Score.Reader
import Chiptune.Song
import Chiptune.Song.Load
import Chiptune.Song.Summary
import Chiptune.Text.Line
import Chiptune.Text.Printable
import Chiptune.Text.Quoted
import Chiptune.Text.Utf8
import Chiptune.Text.Word
import Chiptune.Varint
import Chiptune.Proofs.Score.Sheet
import Chiptune.Proofs.Text.Splitting
import Chiptune.Proofs.Score.Reading
import Chiptune.Proofs.Song.Shape
import Chiptune.Proofs.Image
import Chiptune.Proofs.Instr.Decoding
import Chiptune.Proofs.Score.Recovery
import Chiptune.Proofs.Playback.Run
import Chiptune.Proofs.Text.Appending
import Chiptune.Proofs.Text.Title
import Chiptune.Proofs.Score.Steps
import Chiptune.Proofs.Score.Finality
import Chiptune.Proofs.Text.Casing
import Chiptune.Proofs.Score.Casing
import Chiptune.Proofs.Score.TitleLine
import Chiptune.Proofs.Song.Loading
import Chiptune.Proofs.Text.Tokens
import Chiptune.Proofs.Meter.Bank
import Chiptune.Proofs.Meter.Exact
import Chiptune.Proofs.Cli.Effect
import Chiptune.Proofs.Playback.Metering
import Chiptune.Proofs.Literal
import Chiptune.Proofs.Instr.Emission
import Chiptune.Proofs.Score.LookAhead
import Chiptune.Proofs.Meter.Overflow
import Chiptune.Proofs.Meter.Dither
import Chiptune.Proofs.Meter.Order
import Chiptune.Proofs.Meter.Simple
import Chiptune.Proofs.Meter.Settling
import Chiptune.Proofs.Song.Title
import Chiptune.Proofs.Song.Limits
import Chiptune.Proofs.Text.Lossy
import Chiptune.Proofs.Playback.FileName
import Chiptune.Proofs.Playback.DisplayName
import Chiptune.Proofs.Buffer
