import StaticSite.Main
import StaticSite.Watch.Change
import StaticSite.Proofs.Cleaning
import StaticSite.Proofs.Collisions
import StaticSite.Proofs.Overwriting
import StaticSite.Proofs.Fixpoint
import StaticSite.Proofs.Completeness
import StaticSite.Proofs.Ancestry
import StaticSite.Proofs.Hiding
import StaticSite.Proofs.Faults
import StaticSite.Proofs.Interleaving
import StaticSite.Proofs.NamedVariables
import StaticSite.Proofs.Requests
import StaticSite.Proofs.Confinement
import StaticSite.Proofs.Gaps
import StaticSite.Proofs.Verbatim
import StaticSite.Proofs.Effects
import StaticSite.Proofs.Walking
import StaticSite.Proofs.Links
import StaticSite.Proofs.BodyLines
import StaticSite.Proofs.Fences
import StaticSite.Proofs.Spacing
import StaticSite.Proofs.OwnLines
import StaticSite.Proofs.Removals
import StaticSite.Proofs.Refusals
import StaticSite.Proofs.Entries
import StaticSite.Proofs.Reports
import StaticSite.Proofs.Queries
import StaticSite.Proofs.Markup
import StaticSite.Proofs.Extensions
import StaticSite.Proofs.Truncation
import StaticSite.Proofs.Spellings
import StaticSite.Proofs.LinkTexts
