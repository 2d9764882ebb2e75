import ShaderWeave.Binding.Layout
import ShaderWeave.Json.Reader
import ShaderWeave.Shader
import ShaderWeave.Flag.Store
import ShaderWeave.Proofs.Scan.Balance
import ShaderWeave.Proofs.Scan.Pieces
import ShaderWeave.Proofs.Binding.Reading
import ShaderWeave.Proofs.Chunk.Authoring
import ShaderWeave.Proofs.Conditional.Markup
import ShaderWeave.Proofs.Conditional.Expansion
import ShaderWeave.Proofs.Include.Closure
import ShaderWeave.Proofs.Include.Strictness
import ShaderWeave.Proofs.Include.Insertion
import ShaderWeave.Proofs.Text.Lines
import ShaderWeave.Proofs.Text.Trim
import ShaderWeave.Proofs.Text.Reflow
import ShaderWeave.Proofs.Text.Formatting
import ShaderWeave.Proofs.Number.ReadBack
import ShaderWeave.Proofs.Config.Identity
import ShaderWeave.Proofs.Program.Bindings
import ShaderWeave.Proofs.Context.Run
import ShaderWeave.Proofs.Context.Caching
import ShaderWeave.Proofs.Binding.Collecting
import ShaderWeave.Proofs.Context.Updates
import ShaderWeave.Proofs.Chunk.Includes
import ShaderWeave.Proofs.Composition.Choice
import ShaderWeave.Proofs.Chunk.Arrangement
import ShaderWeave.Proofs.Scan.LineState
import ShaderWeave.Proofs.Binding.Printing
import ShaderWeave.Proofs.Composition.Placeholder
import ShaderWeave.Proofs.Chunk.Duplicates
import ShaderWeave.Proofs.Indentation.Layout
import ShaderWeave.Proofs.Indentation.Rewording
import ShaderWeave.Proofs.Binding.Comments
import ShaderWeave.Proofs.Composition.Frame
import ShaderWeave.Proofs.Macro.Replacement
import ShaderWeave.Proofs.Chunk.Partition
import ShaderWeave.Proofs.Flag.Serialization
import ShaderWeave.Proofs.Binding.Layout
import ShaderWeave.Proofs.Marker.Expansion
import ShaderWeave.Proofs.Program.Locations
import ShaderWeave.Proofs.Bytewise.Composition
import ShaderWeave.Proofs.Bytewise.Closing
