import ComposeLowering.Decimal.Binary
import ComposeLowering.Decimal.Literal
import ComposeLowering.Decimal.Scaled
import ComposeLowering.Decimal.Shortest
import ComposeLowering.Decimal.Written
import ComposeLowering.Document
import ComposeLowering.Document.Json
import ComposeLowering.Fault
import ComposeLowering.Fuzz.Entropy
import ComposeLowering.Fuzz.Generator
import ComposeLowering.Hash.Blake3
import ComposeLowering.Ir.Copy
import ComposeLowering.Ir.Decl
import ComposeLowering.Ir.Dump
import ComposeLowering.Ir.Expr
import ComposeLowering.Ir.Module
import ComposeLowering.Ir.Zero
import ComposeLowering.Link.Mangle
import ComposeLowering.Link.Signature
import ComposeLowering.Lowering.Composer
import ComposeLowering.Lowering.Context
import ComposeLowering.Lowering.Decoy.Record
import ComposeLowering.Lowering.Decoy.Retarget
import ComposeLowering.Lowering.Decoy.Rules
import ComposeLowering.Lowering.Decoy.Split
import ComposeLowering.Lowering.Error
import ComposeLowering.Lowering.Names
import ComposeLowering.Lowering.Pipeline
import ComposeLowering.Lowering.Synthetic
import ComposeLowering.Options
import ComposeLowering.Options.Read
import ComposeLowering.Report
import ComposeLowering.Request.Decode
import ComposeLowering.Request.Failure
import ComposeLowering.Request.Respond
import ComposeLowering.Request.Session
import ComposeLowering.Spec.Build
import ComposeLowering.Spec.Field
import ComposeLowering.Text.GraphemeExtend
import ComposeLowering.Text.Printable
import ComposeLowering.Text.Quoted
import ComposeLowering.Ty.Basic
import ComposeLowering.Ty.Interner
import ComposeLowering.Ty.Render
import ComposeLowering.Proofs.WellFormed
import ComposeLowering.Proofs.Arena
import ComposeLowering.Proofs.Composer.Step
import ComposeLowering.Proofs.Composer.Invariant
import ComposeLowering.Proofs.Composer.Pass
import ComposeLowering.Proofs.Composer.Run
import ComposeLowering.Proofs.Triple
import ComposeLowering.Proofs.Unlowered
import ComposeLowering.Proofs.Copy
import ComposeLowering.Proofs.Decoys
import ComposeLowering.Proofs.Convention
import ComposeLowering.Proofs.Layout
import ComposeLowering.Proofs.Safe
import ComposeLowering.Proofs.Nesting
import ComposeLowering.Proofs.Composer.Fuel
import ComposeLowering.Proofs.Composer.Termination
import ComposeLowering.Proofs.CopyRanking
import ComposeLowering.Proofs.Finishes
import ComposeLowering.Proofs.Composer.Frame
import ComposeLowering.Proofs.Composer.Clone
import ComposeLowering.Proofs.Composer.Settled
import ComposeLowering.Proofs.Idempotence
import ComposeLowering.Proofs.Composer.Slots
import ComposeLowering.Proofs.Composer.Memo
import ComposeLowering.Proofs.CopyFrame
import ComposeLowering.Proofs.Decoy.Split
import ComposeLowering.Proofs.Parents
import ComposeLowering.Proofs.Decoy.Eligible
import ComposeLowering.Proofs.Decoy.Stubs
import ComposeLowering.Proofs.Decoy.Substitute
import ComposeLowering.Proofs.Digits
import ComposeLowering.Proofs.SignatureParts
import ComposeLowering.Proofs.SyntheticCount
import ComposeLowering.Proofs.MaskWord
import ComposeLowering.Proofs.Interner
import ComposeLowering.Proofs.Renaming
import ComposeLowering.Proofs.CopyWalk
import ComposeLowering.Proofs.CopyRenaming
import ComposeLowering.Proofs.HandleReads
import ComposeLowering.Proofs.HandleRemap
import ComposeLowering.Proofs.ContainmentTree
import ComposeLowering.Proofs.Composer.Members
import ComposeLowering.Proofs.Linkage
