import Voicing.Binary
import Voicing.Decimal.Digits
import Voicing.Decimal.Style
import Voicing.Decimal.Read
import Voicing.Interval
import Voicing.Controller
import Voicing.Memory
import Voicing.KeyStream
import Voicing.Layer.Held
import Voicing.Layer.Gates
import Voicing.Layer.State
import Voicing.Bank.Settings
import Voicing.Bank.Fault
import Voicing.Bank.Write
import Voicing.Bank.Read
import Voicing.Bank.File
import Voicing.Text.Utf8
import Voicing.Yaml.Text
import Voicing.Yaml.Scalar
import Voicing.Yaml.Token
import Voicing.Yaml.Node
import Voicing.Yaml.Value
import Voicing.Yaml.Path
import Voicing.Yaml.Liberal
import Voicing.Yaml.Document
import Voicing.Midi.Message
import Voicing.Midi.File
import Voicing.Engine
import Voicing.Replay
import Voicing.Listing
import Voicing.Command
import Voicing.Main
import Voicing.Proofs.Cue
import Voicing.Proofs.Levels
import Voicing.Proofs.Pedals
import Voicing.Proofs.Independence
import Voicing.Proofs.Moments
import Voicing.Proofs.Obedience
import Voicing.Proofs.Willing
import Voicing.Proofs.Conservation
import Voicing.Proofs.Agreement
import Voicing.Proofs.Sostenuto
import Voicing.Proofs.Rotation
import Voicing.Proofs.Keyboard
import Voicing.Proofs.History
import Voicing.Proofs.BackToBack
import Voicing.Proofs.Timeline
import Voicing.Proofs.Attacks
import Voicing.Proofs.Slices
import Voicing.Proofs.Legato
import Voicing.Proofs.VelocitySource
import Voicing.Proofs.Unheard
import Voicing.Proofs.Told
import Voicing.Proofs.DataLevels
import Voicing.Proofs.Turns
import Voicing.Proofs.Readiness
import Voicing.Proofs.Resets
import Voicing.Proofs.Lifts
import Voicing.Proofs.Waiting
import Voicing.Proofs.Rounds
import Voicing.Proofs.Conditions
import Voicing.Proofs.Decisions
import Voicing.Proofs.Faults
import Voicing.Proofs.HeldReleases
import Voicing.Proofs.ControllerGates
import Voicing.Proofs.Decimal.DigitText
import Voicing.Proofs.Decimal.Rounding
import Voicing.Proofs.Decimal.Shortest
import Voicing.Proofs.Decimal.Recovery
import Voicing.Proofs.Decimal.NumberText
import Voicing.Proofs.Yaml.PlainText
import Voicing.Proofs.Yaml.QuotedText
import Voicing.Proofs.Yaml.LiteralText
import Voicing.Proofs.Yaml.Lines
import Voicing.Proofs.Yaml.Scanning
import Voicing.Proofs.Yaml.Shown
import Voicing.Proofs.Yaml.Meaning
import Voicing.Proofs.Yaml.Building
import Voicing.Proofs.Yaml.Fields
import Voicing.Proofs.BankFiles
