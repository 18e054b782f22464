import Signpost.Main
import Signpost.Proofs.CommandLine.Pairs
import Signpost.Proofs.Http.Authority
import Signpost.Proofs.OpenApi.Extraction
import Signpost.Proofs.Route.HostBinding
import Signpost.Proofs.Router.Changes
import Signpost.Proofs.Router.Securing
import Signpost.Proofs.RouteFile.Composition
import Signpost.Proofs.RouteFile.Quoting
import Signpost.Proofs.Source.Agreement
import Signpost.Proofs.Table.Canonical
import Signpost.Proofs.Table.Encoded
import Signpost.Proofs.Table.FilledAction
import Signpost.Proofs.Table.Lookup
import Signpost.Proofs.Table.PinnedFormat
import Signpost.Proofs.Table.Precedence
import Signpost.Proofs.Table.RoundTrip
import Signpost.Proofs.Table.Supplied
import Signpost.Proofs.Template.Enforcement
import Signpost.Proofs.Route.Weakening
import Signpost.Proofs.Template.Rendering
import Signpost.Proofs.Table.Deferred
import Signpost.Proofs.Table.MountPoint
import Signpost.Proofs.Table.Override
import Signpost.Proofs.MediaType.Acceptance
import Signpost.Proofs.MediaType.Printing
import Signpost.Proofs.Table.LiteralText
import Signpost.Proofs.Template.Arguments
import Signpost.Proofs.Template.Scan
