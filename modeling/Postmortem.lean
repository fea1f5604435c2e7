import Postmortem.Bridge
import Postmortem.CallStack.History
import Postmortem.Settings.KeyValue
import Postmortem.Proofs.Nesting
import Postmortem.Proofs.Story
import Postmortem.Proofs.Pending
import Postmortem.Proofs.WayOut
import Postmortem.Proofs.Stitching
import Postmortem.Proofs.Course
import Postmortem.Proofs.Bracketing
import Postmortem.Proofs.Attribution
import Postmortem.Proofs.FirstSight
import Postmortem.Proofs.Reports
import Postmortem.Proofs.Cleanup
import Postmortem.Proofs.Joining
import Postmortem.Proofs.Ascent
import Postmortem.Proofs.Strictness
import Postmortem.Proofs.Watching
import Postmortem.Proofs.Undisturbed
import Postmortem.Proofs.Extent
import Postmortem.Proofs.Consequences
import Postmortem.Proofs.Seat
import Postmortem.Proofs.SettingsDocuments
import Postmortem.Proofs.Guards
import Postmortem.Proofs.Outline
import Postmortem.Proofs.SymbolDocuments
import Postmortem.Proofs.Lookups
import Postmortem.Proofs.SymbolNormalForm
import Postmortem.Proofs.Text.Numerals
import Postmortem.Proofs.Text.Octets
import Postmortem.Proofs.Text.Trimming
import Postmortem.Proofs.SettingsText
import Postmortem.Proofs.Location
import Postmortem.Proofs.Payloads
import Postmortem.Proofs.Trail
import Postmortem.Proofs.Catalogue
import Postmortem.Proofs.Segments
import Postmortem.Proofs.Sidecars
