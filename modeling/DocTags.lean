import DocTags.Main
import DocTags.OpenApi.Reader
import DocTags.Proofs.Block.Lines
import DocTags.Proofs.Docs.Coverage
import DocTags.Proofs.Docs.Culprits
import DocTags.Proofs.Docs.Joined
import DocTags.Proofs.Docs.Respaced
import DocTags.Proofs.Docs.Surroundings
import DocTags.Proofs.Docs.WrittenEndpoints
import DocTags.Proofs.Docs.WrittenModels
import DocTags.Proofs.Endpoint.ProseUses
import DocTags.Proofs.Endpoint.Validity
import DocTags.Proofs.FileTree.Searched
import DocTags.Proofs.Line.MostSpecific
import DocTags.Proofs.Model.BareHeading
import DocTags.Proofs.Model.Warnings
import DocTags.Proofs.OpenApi.Bodies
import DocTags.Proofs.OpenApi.RoundTrip
import DocTags.Proofs.OpenApi.Schemas
import DocTags.Proofs.OpenApi.Tags
import DocTags.Proofs.OpenApi.WellFormed
import DocTags.Proofs.PathGroup.Partition
import DocTags.Proofs.PathGroup.SamePath
import DocTags.Proofs.Run.Kept
import DocTags.Proofs.Run.Log
import DocTags.Proofs.Run.Reached
