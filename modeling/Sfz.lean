import Sfz.Instrument.Build
import Sfz.PlayerMap
import Sfz.Proofs.Checked
import Sfz.Proofs.Document.Layout
import Sfz.Proofs.Document.Lines
import Sfz.Proofs.Document.Reading
import Sfz.Proofs.Document.RootedSamples
import Sfz.Proofs.Instrument.Bounds
import Sfz.Proofs.Instrument.Cells
import Sfz.Proofs.Instrument.Diagnostics
import Sfz.Proofs.Instrument.Inheritance
import Sfz.Proofs.Instrument.LineBreaks
import Sfz.Proofs.Instrument.Loads
import Sfz.Proofs.Instrument.Samples
import Sfz.Proofs.Instrument.Separators
import Sfz.Proofs.Instrument.Slots
import Sfz.Proofs.Instrument.Warnings
import Sfz.Proofs.Lexer.Alike
import Sfz.Proofs.Lexer.Conservation
import Sfz.Proofs.Lexer.Cuts
import Sfz.Proofs.Lexer.Limit
import Sfz.Proofs.Lexer.LineBreaks
import Sfz.Proofs.Lexer.Moves
import Sfz.Proofs.Lexer.Places
import Sfz.Proofs.Lexer.Reading
import Sfz.Proofs.Lexer.Shape
import Sfz.Proofs.Lexer.Splice
import Sfz.Proofs.Lexer.States
import Sfz.Proofs.Lexer.Steps
import Sfz.Proofs.Number.Rational
import Sfz.Proofs.OpcodeTable.Compilation
import Sfz.Proofs.Player.Choice
import Sfz.Proofs.Player.Histories
import Sfz.Proofs.Player.Rotation
import Sfz.Proofs.Player.Turns
import Sfz.Proofs.PlayerMap.Answers
import Sfz.Proofs.PlayerMap.Checked
import Sfz.Proofs.PlayerMap.InPlace
import Sfz.Proofs.PlayerMap.Layers
import Sfz.Proofs.PlayerMap.Seeds
import Sfz.Proofs.Region.Acceptance
import Sfz.Proofs.SamplePath.Spelling
import Sfz.Proofs.Section.Grammar
import Sfz.Proofs.Section.Grouping
import Sfz.Proofs.Text.Blank
import Sfz.Proofs.Value.Note
import Sfz.Settings.Toml
import Sfz.Proofs.Toml.Library
import Sfz.Proofs.Settings.Toml
