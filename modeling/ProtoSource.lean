import ProtoSource.Main
import ProtoSource.Settings.Json
import ProtoSource.Proofs.Render.Capture
import ProtoSource.Proofs.Render.Digest
import ProtoSource.Proofs.Render.Grouping
import ProtoSource.Proofs.Render.Maps
import ProtoSource.Proofs.Render.Printable
import ProtoSource.Proofs.Render.RuleBlocks
import ProtoSource.Proofs.Render.Strategies
import ProtoSource.Proofs.Render.Structure
import ProtoSource.Proofs.Render.Tokens
import ProtoSource.Proofs.Http.RoundTrip
import ProtoSource.Proofs.Descriptor.Transcoding
import ProtoSource.Proofs.Render.Indentation
import ProtoSource.Proofs.Render.Preamble
import ProtoSource.Proofs.Render.StandardOptions
import ProtoSource.Proofs.Render.Reserved
import ProtoSource.Proofs.Text.Runs
import ProtoSource.Proofs.CommandLine.Files
import ProtoSource.Proofs.CommandLine.Delivery
