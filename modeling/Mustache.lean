import Mustache.Main
import Mustache.Loader.Inline
import Mustache.Proofs.Text.Slice
import Mustache.Proofs.Token.Tiling
import Mustache.Proofs.Token.Lines
import Mustache.Proofs.Token.Lossless
import Mustache.Proofs.Node.Forest
import Mustache.Proofs.Node.Machine
import Mustache.Proofs.Node.Nesting
import Mustache.Proofs.Render.Parts
import Mustache.Proofs.Render.Restore
import Mustache.Proofs.Render.Wrapping
import Mustache.Proofs.Engine.Compile
import Mustache.Proofs.Engine.History
import Mustache.Proofs.Value.Inert
import Mustache.Proofs.Render.Printing
import Mustache.Proofs.Render.Inert
import Mustache.Proofs.Render.Sources
import Mustache.Proofs.Node.Parsed
import Mustache.Proofs.Template.Steps
import Mustache.Proofs.Engine.Sound
import Mustache.Proofs.Render.Escaping
import Mustache.Proofs.Render.Parallel
import Mustache.Proofs.Engine.Keys
import Mustache.Proofs.Engine.Replay
import Mustache.Proofs.Render.Indent
import Mustache.Proofs.Value.Family
import Mustache.Proofs.Render.Lockstep
import Mustache.Proofs.Render.Depth
import Mustache.Proofs.Render.Limit
import Mustache.Proofs.FileSystem.Follow
import Mustache.Proofs.Loader.Directory
import Mustache.Proofs.Loader.Inline
import Mustache.Proofs.Engine.Beside
import Mustache.Proofs.Token.Printed
import Mustache.Proofs.Token.Switch
import Mustache.Proofs.Template.Moved
import Mustache.Proofs.Render.Switched
import Mustache.Proofs.Node.Visits
import Mustache.Proofs.Template.Heads
import Mustache.Proofs.Render.Places
import Mustache.Proofs.Render.Strict
import Mustache.Proofs.Engine.Strict
import Mustache.Proofs.Command.Check
import Mustache.Proofs.Token.Joined
import Mustache.Proofs.Node.Joined
import Mustache.Proofs.Template.Joined
import Mustache.Proofs.Render.Onto
import Mustache.Proofs.Engine.Joined
import Mustache.Proofs.Token.OneLine
import Mustache.Proofs.Engine.Shelf
import Mustache.Proofs.Template.Chain
import Mustache.Proofs.Render.Frames
import Mustache.Proofs.Engine.Chain
import Mustache.Proofs.Render.Sharing
import Mustache.Proofs.Render.Steady
import Mustache.Proofs.Render.Repeated
import Mustache.Proofs.Render.Confined
import Mustache.Proofs.Engine.Default
import Mustache.Proofs.Text.Line
import Mustache.Proofs.Excerpt
import Mustache.Proofs.Token.Placed
import Mustache.Proofs.Engine.Faults
import Mustache.Proofs.Node.Spans
import Mustache.Proofs.Json.Compact
import Mustache.Proofs.Artifact
import Mustache.Proofs.Artifact.Parsed
import Mustache.Proofs.FileSystem.Change
import Mustache.Proofs.FileSystem.Flat
import Mustache.Proofs.Cache.Directory
import Mustache.Proofs.Render.Inverse
import Mustache.Proofs.Render.Visited
import Mustache.Proofs.Engine.Fingerprint
import Mustache.Proofs.Engine.Group
import Mustache.Proofs.Engine.Replaced
import Mustache.Proofs.Token.Plain
import Mustache.Proofs.Render.Plain
import Mustache.Proofs.Engine.Plain
import Mustache.Proofs.Token.Loop
import Mustache.Proofs.Engine.Scans
import Mustache.Proofs.Token.Fused
import Mustache.Proofs.Token.Unwrapped
import Mustache.Proofs.Node.Fused
import Mustache.Proofs.Template.Change
import Mustache.Proofs.Template.Unwrapped
import Mustache.Proofs.Render.Change
import Mustache.Proofs.Render.Unwrapped
import Mustache.Proofs.Engine.Unwrapped
import Mustache.Proofs.Token.SelfClosing
import Mustache.Proofs.Template.SelfClosing
import Mustache.Proofs.Render.Rebodied
import Mustache.Proofs.Engine.SelfClosing
import Mustache.Proofs.Escape
import Mustache.Proofs.Reindent
import Mustache.Proofs.Token.Indented
import Mustache.Proofs.Token.Margin
import Mustache.Proofs.Node.Indented
import Mustache.Proofs.Template.Indented
import Mustache.Proofs.Render.Indented
import Mustache.Proofs.Render.Lower
import Mustache.Proofs.Engine.Indented
