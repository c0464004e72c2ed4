import ScriptDecompiler.CommandLine.Directory
import ScriptDecompiler.Main
import ScriptDecompiler.Proofs.Bytecode.Addresses
import ScriptDecompiler.Proofs.Bytecode.Neighbours
import ScriptDecompiler.Proofs.Bytecode.Tiling
import ScriptDecompiler.Proofs.Bytecode.Truncation
import ScriptDecompiler.Proofs.Expr.Layout
import ScriptDecompiler.Proofs.Expr.Leaves
import ScriptDecompiler.Proofs.Expr.Slots
import ScriptDecompiler.Proofs.Flow.Fallthrough
import ScriptDecompiler.Proofs.Flow.Functions
import ScriptDecompiler.Proofs.Flow.Mirror
import ScriptDecompiler.Proofs.Machine.Annotation
import ScriptDecompiler.Proofs.Machine.Assignments
import ScriptDecompiler.Proofs.Machine.BlockMoves
import ScriptDecompiler.Proofs.Machine.CallFootprint
import ScriptDecompiler.Proofs.Machine.Courses
import ScriptDecompiler.Proofs.Machine.EntryStacks
import ScriptDecompiler.Proofs.Machine.Faults
import ScriptDecompiler.Proofs.Machine.FirstArrival
import ScriptDecompiler.Proofs.Machine.Footprints
import ScriptDecompiler.Proofs.Machine.Isolation
import ScriptDecompiler.Proofs.Machine.Jumps
import ScriptDecompiler.Proofs.Machine.Names
import ScriptDecompiler.Proofs.Machine.NativeAgreement
import ScriptDecompiler.Proofs.Machine.NativeFootprint
import ScriptDecompiler.Proofs.Machine.Placeholders
import ScriptDecompiler.Proofs.Machine.Points
import ScriptDecompiler.Proofs.Machine.Provenance
import ScriptDecompiler.Proofs.Machine.Reachability
import ScriptDecompiler.Proofs.Machine.References
import ScriptDecompiler.Proofs.Machine.Repetition
import ScriptDecompiler.Proofs.Machine.Results
import ScriptDecompiler.Proofs.Machine.Roots
import ScriptDecompiler.Proofs.Machine.Scoping
import ScriptDecompiler.Proofs.Machine.Simulation
import ScriptDecompiler.Proofs.Machine.Statements
import ScriptDecompiler.Proofs.Machine.Tables
import ScriptDecompiler.Proofs.Machine.Temporaries
import ScriptDecompiler.Proofs.Machine.Variables
import ScriptDecompiler.Proofs.Machine.Walk
import ScriptDecompiler.Proofs.Native.Catalog
import ScriptDecompiler.Proofs.Native.HashSpelling
import ScriptDecompiler.Proofs.Native.Translation
import ScriptDecompiler.Proofs.Render.Annotation
import ScriptDecompiler.Proofs.Render.Comments
import ScriptDecompiler.Proofs.Render.Control
import ScriptDecompiler.Proofs.Render.Declarations
import ScriptDecompiler.Proofs.Render.Dependence
import ScriptDecompiler.Proofs.Render.Pieces
import ScriptDecompiler.Proofs.Render.Reading
import ScriptDecompiler.Proofs.Text.Order
import ScriptDecompiler.Proofs.Ty.Join
import ScriptDecompiler.Proofs.Ty.Observations
import ScriptDecompiler.Proofs.Ty.Spelling
