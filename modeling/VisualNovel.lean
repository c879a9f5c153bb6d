import VisualNovel.Main
import VisualNovel.Stage.Draft
import VisualNovel.Proofs.Command.Conditional
import VisualNovel.Proofs.Player.Accounting
import VisualNovel.Proofs.Player.Feeding
import VisualNovel.Proofs.Player.Resume
import VisualNovel.Proofs.Expression.Grammar
import VisualNovel.Proofs.Expression.Reading
import VisualNovel.Proofs.Expression.Assignments
import VisualNovel.Proofs.Expression.Parsing
import VisualNovel.Proofs.Command.Rows
import VisualNovel.Proofs.Scenario.Closing
import VisualNovel.Proofs.Player.Calls
import VisualNovel.Proofs.Player.Lifecycle
import VisualNovel.Proofs.Asset.Settling
import VisualNovel.Proofs.Player.InStep
import VisualNovel.Proofs.Player.Timing
import VisualNovel.Proofs.Player.Visits
import VisualNovel.Proofs.Player.Notes
import VisualNovel.Proofs.Player.Reads
import VisualNovel.Proofs.Player.SavedPages
import VisualNovel.Proofs.Command.Labels
import VisualNovel.Proofs.Scenario.Targets
import VisualNovel.Proofs.Player.Pasts
import VisualNovel.Proofs.Player.Restart
import VisualNovel.Proofs.Player.Departures
import VisualNovel.Proofs.Player.Consistency
import VisualNovel.Proofs.Player.Endings
import VisualNovel.Proofs.Player.Losses
import VisualNovel.Proofs.Scenario.Ownership
import VisualNovel.Proofs.Table.Writing
import VisualNovel.Proofs.History.Saving
import VisualNovel.Proofs.Player.Supplied
import VisualNovel.Proofs.Player.Gallery
import VisualNovel.Proofs.Asset.Balance
import VisualNovel.Proofs.Player.Entrances
import VisualNovel.Proofs.Scenario.Shelving
import VisualNovel.Proofs.Player.Picks
import VisualNovel.Proofs.Player.Window
import VisualNovel.Proofs.Scenario.Seeking
import VisualNovel.Proofs.Player.Requests
import VisualNovel.Proofs.Player.Rounds
import VisualNovel.Proofs.Expression.Spelling
import VisualNovel.Proofs.Expression.Joining
import VisualNovel.Proofs.Player.Nesting
import VisualNovel.Proofs.Player.Bracketing
import VisualNovel.Proofs.Expression.Typing
import VisualNovel.Proofs.Character.Sheets
import VisualNovel.Proofs.CommandLine.Checking
import VisualNovel.Proofs.Table.Quotes
import VisualNovel.Proofs.Player.Stalls
import VisualNovel.Proofs.Table.Access
